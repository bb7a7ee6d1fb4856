import EventScript.Optimizer.Note
import EventScript.Optimizer.Rejection
import EventScript.Trace

/-! Computations of an optimizer. They send notes, to the log and to the trace that the optimizer
keeps, and they may stop; what was sent before a stop is not lost. -/
namespace EventScript

inductive Stop where
  | rejected (rejection : Rejection)
  | fault (fault : Fault)
  deriving DecidableEq, Repr

/-- What the rules have at hand: the trace, and the log of all notes that were sent. -/
structure Optimizer where
  trace : Trace := {}
  log : List Note := []
  deriving DecidableEq, Repr, Inhabited

abbrev Pass := EStateM Stop Optimizer

/-- What is seen of a computation: the notes that it sent, and how it ended. -/
structure Traced (α : Type) where
  notes : List Note
  outcome : Except Stop α

namespace Optimizer

def create (tracing : Bool) : Optimizer where
  trace := { enabled := tracing }

def send (o : Optimizer) (note : Note) : Optimizer where
  log := o.log ++ [note]
  trace := o.trace.record note.diagnostic

def takeDiagnostics (o : Optimizer) : List Diagnostic × Optimizer :=
  let (notes, trace) := o.trace.take
  (notes, { o with trace })

def run {α : Type} (o : Optimizer) (x : Pass α) : Traced α × Optimizer :=
  match x o with
  | .ok a next => (⟨next.log.drop o.log.length, .ok a⟩, next)
  | .error stop next => (⟨next.log.drop o.log.length, .error stop⟩, next)

end Optimizer

namespace Pass

def note (change : Simplification) (position : Option Position) : Pass Unit :=
  modify fun o => o.send ⟨change, position⟩

def reject {α : Type} (rejection : Rejection) : Pass α :=
  throw (.rejected rejection)

def fault {α : Type} (fault : Fault) : Pass α :=
  throw (.fault fault)

def takeNotes : Pass (List Diagnostic) :=
  modifyGet Optimizer.takeDiagnostics

end Pass

end EventScript
