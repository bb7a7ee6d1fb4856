import EventScript.Node.Kind
import EventScript.Operator

/-! Faults are broken promises of whoever built the tree or made the call, as opposed to errors
of the script itself. Each one is a cause; its wording is given once, by the message. -/
namespace EventScript

/-- The places of a tree that a node has to fill whatever it is reduced to. -/
inductive Role where
  | leftOperand | rightOperand | unaryOperand | arrayIndex
  | assignmentTarget | assignmentValue | ifCondition | whileCondition
  deriving DecidableEq, Repr

def Role.text : Role → String
  | leftOperand => "left operand"
  | rightOperand => "right operand"
  | unaryOperand => "unary operand"
  | arrayIndex => "array index"
  | assignmentTarget => "assignment target"
  | assignmentValue => "assignment value"
  | ifCondition => "if condition"
  | whileCondition => "while condition"

inductive Construct where
  | ifWhen | whileLoop
  deriving DecidableEq, Repr

def Construct.text : Construct → String
  | ifWhen => "if"
  | whileLoop => "while"

inductive TestShape where
  | operator (op : BinaryOp)
  | node (kind : Kind)
  deriving DecidableEq, Repr

def TestShape.text : TestShape → String
  | operator op => "`" ++ op.symbol ++ "`"
  | node kind => kind.name

inductive Fault where
  | vanished (role : Role)
  | notComparison (construct : Construct) (found : TestShape)
  | alreadyFolded (kind : Kind)
  | addressOverflow
  | notEmittable
  | notPowerOfTwo
  | paddingOverflow
  | outOfMemory (bytes : Nat)
  deriving DecidableEq, Repr

def Fault.message : Fault → String
  | vanished role => role.text ++ " was optimized away"
  | notComparison construct found =>
      construct.text ++ " condition must be a comparison, found " ++ found.text
  | alreadyFolded kind =>
      kind.name ++ " is produced by the optimizer and cannot be optimized again"
  | addressOverflow => "attempt to add with overflow"
  | notEmittable => "assertion failed: root.as_ref().is_none_or(AstNode::is_emittable)"
  | notPowerOfTwo => "assertion failed: is_power_of_two(value)"
  | paddingOverflow => "capacity overflow"
  | outOfMemory bytes => "memory allocation of " ++ toString bytes ++ " bytes failed"

end EventScript
