import EventScript.Report

/-! A trace holds notes for later inspection, in the order in which they came, if it is enabled.
Notes go to the log whether a trace holds them or not. -/
namespace EventScript

structure Trace where
  enabled : Bool := false
  held : List Diagnostic := []
  deriving DecidableEq, Repr, Inhabited

namespace Trace

def record (t : Trace) (d : Diagnostic) : Trace :=
  if t.enabled then { t with held := t.held ++ [d] } else t

def take (t : Trace) : List Diagnostic × Trace :=
  (t.held, { t with held := [] })

end Trace

end EventScript
