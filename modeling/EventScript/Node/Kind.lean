/-! The kinds of node by name, as the interchange format and the messages spell them. -/
namespace EventScript

inductive Kind where
  | block | assignment
  | ifWhen | foldedIfWhen | whileLoop | foldedWhile
  | eventDecl | subDecl
  | emit | callSub | call
  | binary | unary | immediate
  | load | store
  | arrayRead | arrayWrite
  deriving DecidableEq, Repr, Inhabited

namespace Kind

def all : List Kind :=
  [.block, .assignment, .ifWhen, .foldedIfWhen, .whileLoop, .foldedWhile, .eventDecl, .subDecl,
    .emit, .callSub, .call, .binary, .unary, .immediate, .load, .store, .arrayRead, .arrayWrite]

def name : Kind → String
  | block => "Block"
  | assignment => "Assignment"
  | ifWhen => "IfWhen"
  | foldedIfWhen => "FoldedIfWhen"
  | whileLoop => "While"
  | foldedWhile => "FoldedWhile"
  | eventDecl => "EventDecl"
  | subDecl => "SubDecl"
  | emit => "Emit"
  | callSub => "CallSub"
  | call => "Call"
  | binary => "BinaryArithmetic"
  | unary => "UnaryArithmetic"
  | immediate => "Immediate"
  | load => "Load"
  | store => "Store"
  | arrayRead => "ArrayRead"
  | arrayWrite => "ArrayWrite"

def ofName? (name : String) : Option Kind :=
  all.find? fun kind => kind.name == name

/-- Control flow that exists only before optimization and that no emitter accepts. -/
def isUnfolded : Kind → Bool
  | ifWhen | whileLoop => true
  | _ => false

end Kind

end EventScript
