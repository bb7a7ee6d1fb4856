import EventScript.Node.Basic
import EventScript.Report

/-! Scripts that are proved wrong while they are reduced are rejected, with the cause, the rule
that found it and the place of the offending node. -/
namespace EventScript

inductive Cause where
  | divisionByZero
  | infiniteLoop
  | rangeOverflow
  | indexOutOfBounds (array : String) (index : Int16) (size : UInt64)
  deriving DecidableEq, Repr

structure Rejection where
  cause : Cause
  message : String
  issuer : String
  position : Option Position
  deriving DecidableEq, Repr

def Access.verb : Access → String
  | read => "read"
  | write => "write"

namespace Rejection

def divisionByZero (issuer : String) (position : Option Position) : Rejection :=
  ⟨.divisionByZero, "Division by zero.", issuer, position⟩

def infiniteLoop (issuer : String) (position : Option Position) : Rejection :=
  ⟨.infiniteLoop, "Infinite loops not allowed", issuer, position⟩

def rangeOverflow (issuer : String) (position : Option Position) : Rejection :=
  ⟨.rangeOverflow, "-32768 has no positive correspondance in 16 bits integers.", issuer, position⟩

def indexOutOfBounds (issuer : String) (position : Option Position) (verb array : String)
    (index : Int16) (size : UInt64) : Rejection where
  cause := .indexOutOfBounds array index size
  message := "Out of bound static array access. Trying to " ++ verb ++ " index " ++
    toString index.toInt ++ " of array " ++ array ++ " of size " ++ toString size.toNat
  issuer := issuer
  position := position

def text (r : Rejection) : String :=
  match r.position with
  | some p => r.message ++ " at " ++ p.text
  | none => r.message

def report (r : Rejection) : Report where
  level := .error
  message := r.message
  issuer := r.issuer
  position := r.position

end Rejection

end EventScript
