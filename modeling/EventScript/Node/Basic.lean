import EventScript.Arithmetic
import EventScript.Position

/-! The tree of a script. One node type covers what a front end hands over and what the optimizer
makes of it: a folded conditional or loop is fused with its test. -/
namespace EventScript

inductive Access where
  | read | write
  deriving DecidableEq, Repr, Inhabited

structure ArrayRef where
  address : UInt64
  size : UInt64
  name : String
  deriving DecidableEq, Repr, Inhabited

inductive Entity where
  | event (id : UInt64)
  | sub (id : UInt64)
  deriving DecidableEq, Repr, Inhabited

inductive Callee where
  | event (id : UInt64)
  | sub (id : UInt64)
  | function (id : UInt64)
  deriving DecidableEq, Repr, Inhabited

/-- How a conditional was written: `when` reacts to its test becoming true, `if` to its being
true; the last line is kept for whoever emits the code. -/
structure IfForm where
  edgeSensitive : Bool
  endLine : Option UInt64 := none
  deriving DecidableEq, Repr, Inhabited

inductive Node where
  | block (statements : List Node) (position : Option Position)
  | assign (target value : Node) (position : Option Position)
  | ifWhen (condition onTrue : Node) (onFalse : Option Node) (form : IfForm)
      (position : Option Position)
  | foldedIf (op : BinaryOp) (left right onTrue : Node) (onFalse : Option Node) (form : IfForm)
      (position : Option Position)
  | whileLoop (condition body : Node) (position : Option Position)
  | foldedWhile (op : BinaryOp) (left right body : Node) (position : Option Position)
  | declare (entity : Entity) (position : Option Position)
  | invoke (callee : Callee) (args : List Node) (position : Option Position)
  | binary (op : BinaryOp) (left right : Node) (position : Option Position)
  | unary (op : UnaryOp) (operand : Node) (position : Option Position)
  | immediate (value : Int16) (position : Option Position)
  | cell (access : Access) (address : UInt64) (position : Option Position)
  | element (access : Access) (array : ArrayRef) (index : Node) (position : Option Position)
  deriving Repr, Inhabited

namespace Node

def kind : Node → Kind
  | block .. => .block
  | assign .. => .assignment
  | ifWhen .. => .ifWhen
  | foldedIf .. => .foldedIfWhen
  | whileLoop .. => .whileLoop
  | foldedWhile .. => .foldedWhile
  | declare (.event _) _ => .eventDecl
  | declare (.sub _) _ => .subDecl
  | invoke (.event _) .. => .emit
  | invoke (.sub _) .. => .callSub
  | invoke (.function _) .. => .call
  | binary .. => .binary
  | unary .. => .unary
  | immediate .. => .immediate
  | cell .read .. => .load
  | cell .write .. => .store
  | element .read .. => .arrayRead
  | element .write .. => .arrayWrite

def position : Node → Option Position
  | block _ p | assign _ _ p | ifWhen _ _ _ _ p | foldedIf _ _ _ _ _ _ p | whileLoop _ _ p
  | foldedWhile _ _ _ _ p | declare _ p | invoke _ _ p | binary _ _ _ p | unary _ _ p
  | immediate _ p | cell _ _ p | element _ _ _ p => p

def withPosition (node : Node) (p : Option Position) : Node :=
  match node with
  | block statements _ => block statements p
  | assign target value _ => assign target value p
  | ifWhen condition onTrue onFalse form _ => ifWhen condition onTrue onFalse form p
  | foldedIf op left right onTrue onFalse form _ => foldedIf op left right onTrue onFalse form p
  | whileLoop condition body _ => whileLoop condition body p
  | foldedWhile op left right body _ => foldedWhile op left right body p
  | declare entity _ => declare entity p
  | invoke callee args _ => invoke callee args p
  | binary op left right _ => binary op left right p
  | unary op operand _ => unary op operand p
  | immediate value _ => immediate value p
  | cell access address _ => cell access address p
  | element access array index _ => element access array index p

def withEndLine (node : Node) (line : UInt64) : Node :=
  match node with
  | ifWhen condition onTrue onFalse form p =>
      ifWhen condition onTrue onFalse { form with endLine := some line } p
  | other => other

def immediate? : Node → Option Int16
  | immediate value _ => some value
  | _ => none

def isEmptyBlock : Node → Bool
  | block [] _ => true
  | _ => false

def children : Node → List Node
  | block statements _ => statements
  | assign target value _ => [target, value]
  | ifWhen condition onTrue onFalse _ _ => condition :: onTrue :: onFalse.toList
  | foldedIf _ left right onTrue onFalse _ _ => left :: right :: onTrue :: onFalse.toList
  | whileLoop condition body _ => [condition, body]
  | foldedWhile _ left right body _ => [left, right, body]
  | invoke _ args _ => args
  | binary _ left right _ => [left, right]
  | unary _ operand _ => [operand]
  | element _ _ index _ => [index]
  | declare .. | immediate .. | cell .. => []

mutual

/-- No unfolded conditional or loop survives anywhere in the tree. -/
def isEmittable : Node → Bool
  | ifWhen .. | whileLoop .. => false
  | block statements _ => allEmittable statements
  | assign target value _ => target.isEmittable && value.isEmittable
  | foldedIf _ left right onTrue none _ _ =>
      left.isEmittable && right.isEmittable && onTrue.isEmittable
  | foldedIf _ left right onTrue (some onFalse) _ _ =>
      left.isEmittable && right.isEmittable && onTrue.isEmittable && onFalse.isEmittable
  | foldedWhile _ left right body _ => left.isEmittable && right.isEmittable && body.isEmittable
  | invoke _ args _ => allEmittable args
  | binary _ left right _ => left.isEmittable && right.isEmittable
  | unary _ operand _ => operand.isEmittable
  | element _ _ index _ => index.isEmittable
  | declare .. | immediate .. | cell .. => true

def allEmittable : List Node → Bool
  | [] => true
  | node :: rest => node.isEmittable && allEmittable rest

end

end Node

end EventScript
