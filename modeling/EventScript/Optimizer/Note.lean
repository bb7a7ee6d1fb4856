import EventScript.Node.Basic
import EventScript.Report

/-! Every simplification announces itself. A note names the simplification and the place of the
node it happened at; the wording follows from the simplification alone. -/
namespace EventScript

inductive Rule where
  | binary | unary | element (access : Access) | ifWhen | whileLoop
  deriving DecidableEq, Repr

def Rule.issuer : Rule → String
  | binary => "pulsec.opt.binary"
  | unary => "pulsec.opt.unary"
  | element .read => "pulsec.opt.array_read"
  | element .write => "pulsec.opt.array_write"
  | ifWhen => "pulsec.opt.if_when"
  | whileLoop => "pulsec.opt.while"

inductive Simplification where
  | binaryFolded
  | multiplicationShifted
  | divisionShifted
  | unaryFolded
  | elementResolved (access : Access)
  | ifEmpty
  | ifAlwaysTrue
  | ifAlwaysFalse
  | ifFused
  | whileAlwaysFalse
  | whileEmpty
  | whileFused
  deriving DecidableEq, Repr

namespace Simplification

def rule : Simplification → Rule
  | binaryFolded | multiplicationShifted | divisionShifted => .binary
  | unaryFolded => .unary
  | elementResolved access => .element access
  | ifEmpty | ifAlwaysTrue | ifAlwaysFalse | ifFused => .ifWhen
  | whileAlwaysFalse | whileEmpty | whileFused => .whileLoop

def message : Simplification → String
  | binaryFolded => "binary arithmetic expression simplified"
  | multiplicationShifted => "multiplication transformed to left shift"
  | divisionShifted => "division transformed to right shift"
  | unaryFolded => "unary arithmetic expression simplified"
  | elementResolved _ => "array access transformed to single variable access"
  | ifEmpty => "if test removed because it had no associated code"
  | ifAlwaysTrue => "if test simplified because condition was always true"
  | ifAlwaysFalse => "if test simplified because condition was always false"
  | ifFused => "if condition folded inside node"
  | whileAlwaysFalse => "while removed because condition is always false"
  | whileEmpty => "while removed because it contained no statement"
  | whileFused => "while condition folded inside node"

end Simplification

structure Note where
  change : Simplification
  position : Option Position
  deriving DecidableEq, Repr

def Note.diagnostic (note : Note) : Diagnostic where
  position := note.position
  message := note.change.message
  issuer := note.change.rule.issuer

end EventScript
