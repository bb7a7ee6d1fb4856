import EventScript.Position

/-! What a user is told: errors and notes alike carry a level, a message, the rule that issues
them and a place, and are shown in one of two line formats. -/
namespace EventScript

inductive Level where
  | info | warning | error | critical
  deriving DecidableEq, Repr

def Level.text : Level → String
  | info => "INFO"
  | warning => "WARNING"
  | error => "ERROR"
  | critical => "CRITICAL"

structure Report where
  level : Level
  message : String
  issuer : String
  position : Option Position
  deriving DecidableEq, Repr

namespace Report

def summary (r : Report) : String :=
  let place := (r.position.map Position.text).getD "unknown location"
  "PULSEC | " ++ r.level.text ++ " | " ++ place ++ " | " ++ r.message

def line (r : Report) : String :=
  let place := (r.position.map Position.text).getD "unknown"
  "PULSEC | " ++ r.level.text ++ " | " ++ place ++ " | " ++ r.issuer ++ " | " ++ r.message

end Report

structure Diagnostic where
  position : Option Position
  message : String
  issuer : String
  deriving DecidableEq, Repr

namespace Diagnostic

def text (d : Diagnostic) : String :=
  match d.position with
  | some p => p.text ++ ": " ++ d.message
  | none => "<synthesized>: " ++ d.message

def report (d : Diagnostic) : Report where
  level := .info
  message := d.message
  issuer := d.issuer
  position := d.position

def logRecord (d : Diagnostic) : String :=
  match d.position with
  | some p => "DEBUG [" ++ d.issuer ++ "] " ++ p.text ++ ": " ++ d.message
  | none => "DEBUG [" ++ d.issuer ++ "] " ++ d.message

end Diagnostic

end EventScript
