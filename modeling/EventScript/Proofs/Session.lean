import EventScript.Proofs.Halt
import Mathlib.Data.List.Basic
import Mathlib.Data.List.Induction

/-! One optimizer through a whole session. What it answers to a tree depends neither on what came
before nor on whether notes are held; those that are held are those sent since they were last
taken, also by runs that stopped. -/
namespace EventScript

/-- The records that a run sends to the log, up to its stop if it stops. -/
def Traced.log {α : Type} (run : Traced α) : List String :=
  run.notes.map fun note => note.diagnostic.logRecord

namespace Node

theorem rewriteProgram_apply (t : Node) (o : Optimizer) :
    let sent := o.sendAll t.optimize.notes
    t.rewriteProgram o =
      match t.optimize.outcome with
      | .ok left =>
          if left.all isEmittable then
            .ok ⟨left, sent.takeDiagnostics.1⟩ sent.takeDiagnostics.2
          else .error (.fault .notEmittable) sent
      | .error stop => .error stop sent := by
  intro sent
  have reduced := t.follows_optimize o
  change EStateM.bind t.rewrite _ o = _
  rw [EStateM.bind, reduced]
  cases t.optimize.outcome with
  | error stop => rfl
  | ok left =>
    by_cases h : left.all isEmittable = true
    · simp only [if_pos h]
      rfl
    · simp only [if_neg h]
      rfl

theorem optimizeProgram_outcome (t : Node) (tracing : Bool) :
    (t.optimizeProgram tracing).outcome = t.optimize.outcome.bind fun left =>
      if left.all isEmittable then
        .ok ⟨left, if tracing then t.optimize.notes.map Note.diagnostic else []⟩
      else .error (.fault .notEmittable) := by
  rw [optimizeProgram, Optimizer.run, rewriteProgram_apply, Optimizer.sendAll_eq]
  cases t.optimize.outcome with
  | error stop => rfl
  | ok left =>
    by_cases h : left.all isEmittable = true
    · simp only [if_pos h, Except.bind]
      rfl
    · simp only [if_neg h, Except.bind]

/-- What a run ends with does not depend on whether notes are held. -/
theorem optimizeProgram_alike (t : Node) :
    (∃ stop, ∀ tracing, (t.optimizeProgram tracing).outcome = .error stop) ∨
    ∃ root, ∀ tracing, ∃ notes, (t.optimizeProgram tracing).outcome = .ok ⟨root, notes⟩ := by
  simp only [optimizeProgram_outcome]
  cases t.optimize.outcome with
  | error stop => exact .inl ⟨stop, fun _ => rfl⟩
  | ok left =>
    cases h : left.all isEmittable with
    | false => exact .inl ⟨.fault .notEmittable, fun _ => if_neg (by simp [h])⟩
    | true => exact .inr ⟨left, fun _ => ⟨_, if_pos h⟩⟩

theorem optimize_of_optimizeProgram {t : Node} {tracing : Bool} {program : Program}
    (h : (t.optimizeProgram tracing).outcome = .ok program) :
    t.optimize.outcome = .ok program.root := by
  rw [optimizeProgram_outcome] at h
  cases hleft : t.optimize.outcome with
  | error stop => rw [hleft] at h; cases h
  | ok left =>
    rw [hleft, Except.bind] at h
    split at h
    · cases h; rfl
    · cases h

end Node

namespace Session

inductive Request where
  | optimize (slot : Option Node)
  | diagnostics
  | take

inductive Answer where
  | optimized (run : Traced (Option Node))
  | held (notes : List Diagnostic)

namespace Answer

def notes : Answer → List Diagnostic
  | optimized run => run.notes.map Note.diagnostic
  | held _ => []

def log : Answer → List String
  | optimized run => run.log
  | held _ => []

end Answer

structure Event where
  request : Request
  answer : Answer

def step (o : Optimizer) : Request → Answer × Optimizer
  | .optimize slot =>
      let (run, next) := o.run (Node.rewriteSlot slot)
      (.optimized run, next)
  | .diagnostics => (.held o.trace.held, o)
  | .take =>
      let (notes, next) := o.takeDiagnostics
      (.held notes, next)

def events (o : Optimizer) : List Request → List Event
  | [] => []
  | request :: rest => ⟨request, (step o request).1⟩ :: events (step o request).2 rest

def after (o : Optimizer) (requests : List Request) : Optimizer :=
  requests.foldl (fun o request => (step o request).2) o

def Request.isTake : Request → Bool
  | take => true
  | _ => false

/-- The events after the last taking. -/
def untaken (events : List Event) : List Event :=
  (events.reverse.takeWhile fun event => !event.request.isTake).reverse

variable {o : Optimizer} {request : Request} {requests : List Request}

theorem after_concat :
    after o (requests ++ [request]) = (step (after o requests) request).2 := by
  rw [after, List.foldl_append]
  rfl

theorem events_concat : events o (requests ++ [request]) =
    events o requests ++ [⟨request, (step (after o requests) request).1⟩] := by
  induction requests generalizing o with
  | nil => rfl
  | cons first rest ih => exact congrArg (_ :: ·) ih

theorem untaken_concat (past : List Event) (event : Event) :
    untaken (past ++ [event]) = if event.request.isTake then [] else untaken past ++ [event] := by
  rw [untaken, List.reverse_append, List.reverse_singleton, List.singleton_append,
    List.takeWhile_cons]
  cases event.request.isTake <;> simp [untaken]

/-- Whatever the optimizer has been through, it runs as a new one does. -/
theorem step_optimize (slot : Option Node) : step o (.optimize slot) =
    (.optimized (Node.optimizeSlot slot), o.sendAll (Node.optimizeSlot slot).notes) := by
  rw [step, (Node.follows_optimizeSlot slot).run]

theorem enabled_step : (step o request).2.trace.enabled = o.trace.enabled := by
  cases request with
  | optimize slot => rw [step_optimize, Optimizer.sendAll_eq]
  | diagnostics => rfl
  | take => rfl

theorem held_step : (step o request).2.trace.held =
    if request.isTake then []
    else o.trace.held ++ if o.trace.enabled then (step o request).1.notes else [] := by
  cases request with
  | optimize slot =>
    rw [step_optimize, Optimizer.sendAll_eq]
    rfl
  | diagnostics => simp [step, Request.isTake, Answer.notes]
  | take => rfl

theorem sent_step : (step o request).2.log.map Note.diagnostic =
    o.log.map Note.diagnostic ++ (step o request).1.notes := by
  cases request with
  | optimize slot => simp [step_optimize, Optimizer.sendAll_eq, Answer.notes]
  | diagnostics => simp [step, Answer.notes]
  | take => simp [step, Optimizer.takeDiagnostics, Answer.notes]

theorem log_step : (step o request).1.log = (step o request).1.notes.map Diagnostic.logRecord := by
  cases request with
  | optimize slot => simp [step_optimize, Answer.log, Answer.notes, Traced.log]
  | diagnostics => rfl
  | take => rfl

theorem enabled_after : (after o requests).trace.enabled = o.trace.enabled := by
  induction requests using List.reverseRecOn with
  | nil => rfl
  | append_singleton requests request ih => rw [after_concat, enabled_step, ih]

theorem held_after (empty : o.trace.held = []) : (after o requests).trace.held =
    if o.trace.enabled then (untaken (events o requests)).flatMap (·.answer.notes) else [] := by
  induction requests using List.reverseRecOn with
  | nil => simp [after, events, untaken, empty]
  | append_singleton requests request ih =>
    rw [after_concat, events_concat, untaken_concat, held_step, enabled_after, ih]
    cases request.isTake <;> cases o.trace.enabled <;> simp

theorem sent_after : (after o requests).log.map Note.diagnostic =
    o.log.map Note.diagnostic ++ (events o requests).flatMap (·.answer.notes) := by
  induction requests using List.reverseRecOn with
  | nil => simp [after, events]
  | append_singleton requests request ih =>
    rw [after_concat, events_concat, sent_step, ih]
    simp

theorem log_of_mem {event : Event} (h : event ∈ events o requests) :
    event.answer.log = event.answer.notes.map Diagnostic.logRecord := by
  induction requests using List.reverseRecOn with
  | nil => cases h
  | append_singleton requests request ih =>
    rw [events_concat, List.mem_append, List.mem_singleton] at h
    rcases h with earlier | rfl
    · exact ih earlier
    · exact log_step

theorem log_untaken : (untaken (events o requests)).flatMap (·.answer.log) =
    ((untaken (events o requests)).flatMap (·.answer.notes)).map Diagnostic.logRecord := by
  rw [List.map_flatMap]
  apply List.flatMap_congr
  intro event h
  rw [untaken, List.mem_reverse] at h
  exact log_of_mem (List.mem_reverse.mp ((List.takeWhile_sublist _).subset h))

/-- Whether notes are held and whatever was asked before, a tree is answered as if it were the
first, and the log gets the notes of every answer. Without tracing no notes are held; with tracing,
one for each record sent to the log since they were last taken. -/
theorem session_observes (tracing : Bool) (before : List Request) :
    let start : Optimizer := .create tracing
    let now := after start before
    let past := untaken (events start before)
    (∀ slot tracing', (step now (.optimize slot)).1 =
      (step (.create tracing') (.optimize slot)).1) ∧
    now.log.map Note.diagnostic = (events start before).flatMap (·.answer.notes) ∧
    (step now .diagnostics).1 = .held now.trace.held ∧
    (step now .take).1 = .held now.trace.held ∧
    now.trace.held = (if tracing then past.flatMap (·.answer.notes) else []) ∧
    now.trace.held.map Diagnostic.logRecord =
      (if tracing then past.flatMap (·.answer.log) else []) ∧
    (default : Optimizer) = .create false := by
  intro start now past
  have held : now.trace.held = if tracing then past.flatMap (·.answer.notes) else [] :=
    held_after rfl
  refine ⟨fun slot tracing' => ?_, sent_after, rfl, rfl, held, ?_, rfl⟩
  · rw [step_optimize, step_optimize]
  · rw [held, log_untaken]
    cases tracing <;> rfl

end Session

end EventScript
