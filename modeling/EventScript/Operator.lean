/-! The operators of a script: their names in the interchange format, the symbols shown to a
user, and which of them may stand as the whole test of a conditional or a loop. -/
namespace EventScript

inductive BinaryOp where
  | shiftLeft | shiftRight | add | sub | mul | div | mod
  | eq | ne | gt | ge | lt | le
  | or | and
  deriving DecidableEq, Repr, Inhabited

inductive UnaryOp where
  | neg | abs
  deriving DecidableEq, Repr, Inhabited

namespace BinaryOp

/-- Every operator, in the order in which the interchange format lists them. -/
def all : List BinaryOp :=
  [.shiftLeft, .shiftRight, .add, .sub, .mul, .div, .mod,
    .eq, .ne, .gt, .ge, .lt, .le, .or, .and]

def name : BinaryOp → String
  | shiftLeft => "ShiftLeft"
  | shiftRight => "ShiftRight"
  | add => "Add"
  | sub => "Sub"
  | mul => "Mul"
  | div => "Div"
  | mod => "Mod"
  | eq => "Eq"
  | ne => "Ne"
  | gt => "Gt"
  | ge => "Ge"
  | lt => "Lt"
  | le => "Le"
  | or => "Or"
  | and => "And"

def symbol : BinaryOp → String
  | shiftLeft => "<<"
  | shiftRight => ">>"
  | add => "+"
  | sub => "-"
  | mul => "*"
  | div => "/"
  | mod => "%"
  | eq => "=="
  | ne => "!="
  | gt => ">"
  | ge => ">="
  | lt => "<"
  | le => "<="
  | or => "or"
  | and => "and"

def ofName? (name : String) : Option BinaryOp :=
  all.find? fun op => op.name == name

def isComparison : BinaryOp → Bool
  | eq | ne | gt | ge | lt | le => true
  | _ => false

def isLogical : BinaryOp → Bool
  | or | and => true
  | _ => false

def isCondition (op : BinaryOp) : Bool :=
  op.isComparison || op.isLogical

end BinaryOp

namespace UnaryOp

def all : List UnaryOp := [.neg, .abs]

def name : UnaryOp → String
  | neg => "Neg"
  | abs => "Abs"

def symbol : UnaryOp → String
  | neg => "-"
  | abs => "abs"

def ofName? (name : String) : Option UnaryOp :=
  all.find? fun op => op.name == name

end UnaryOp

end EventScript
