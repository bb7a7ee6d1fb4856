import EventScript.Optimizer.Program

/-! What a computation does whatever optimizer it runs on: it sends certain notes, in order, and
ends in a certain way. Sequences are known by their parts. -/
namespace EventScript

namespace Trace

theorem record_eq (t : Trace) (d : Diagnostic) :
    t.record d = { t with held := t.held ++ if t.enabled then [d] else [] } := by
  obtain ⟨enabled, held⟩ := t
  cases enabled <;> simp [record]

end Trace

namespace Optimizer

def sendAll (o : Optimizer) (notes : List Note) : Optimizer :=
  notes.foldl send o

@[simp] theorem sendAll_nil (o : Optimizer) : o.sendAll [] = o := rfl

theorem sendAll_append (o : Optimizer) (ns ns' : List Note) :
    o.sendAll (ns ++ ns') = (o.sendAll ns).sendAll ns' :=
  List.foldl_append

/-- The log gets every note, and the trace holds those that it is told to hold. -/
theorem sendAll_eq (o : Optimizer) (ns : List Note) : o.sendAll ns =
    { log := o.log ++ ns
      trace := { o.trace with
        held := o.trace.held ++ if o.trace.enabled then ns.map Note.diagnostic else [] } } := by
  induction ns generalizing o with
  | nil => simp
  | cons note ns ih =>
    rw [sendAll, List.foldl_cons, ← sendAll, ih, send, Trace.record_eq]
    cases h : o.trace.enabled <;> simp [h]

end Optimizer

namespace Pass

/-- On every optimizer the computation sends these notes and ends so. Nothing of the optimizer bears
on it, and nothing else of the optimizer is changed. -/
def Follows (x : Pass α) (t : Traced α) : Prop :=
  ∀ o : Optimizer, x o =
    match t.outcome with
    | .ok a => .ok a (o.sendAll t.notes)
    | .error stop => .error stop (o.sendAll t.notes)

theorem follows_pure {a : α} : (pure a : Pass α).Follows ⟨[], .ok a⟩ :=
  fun _ => rfl

theorem follows_note : (note change p).Follows ⟨[⟨change, p⟩], .ok ()⟩ :=
  fun _ => rfl

theorem follows_reject : (reject e : Pass α).Follows ⟨[], .error (.rejected e)⟩ :=
  fun _ => rfl

theorem follows_fault : (fault f : Pass α).Follows ⟨[], .error (.fault f)⟩ :=
  fun _ => rfl

section
variable {x : Pass α} {f : α → Pass β} {g : α → β}

theorem Follows.bind (hx : x.Follows ⟨ns, .ok a⟩) (hf : (f a).Follows ⟨ns', out⟩) :
    (x >>= f).Follows ⟨ns ++ ns', out⟩ := by
  intro o
  have second := hf (o.sendAll ns)
  rw [← Optimizer.sendAll_append] at second
  change EStateM.bind x f o = _
  rw [EStateM.bind, hx o]
  exact second

theorem Follows.bind_last (hx : x.Follows ⟨ns, .ok a⟩) (hf : (f a).Follows ⟨[], out⟩) :
    (x >>= f).Follows ⟨ns, out⟩ := by
  rw [← List.append_nil ns]
  exact hx.bind hf

theorem Follows.bind_pure (hx : x.Follows ⟨ns, .ok a⟩) (hf : f a = pure b) :
    (x >>= f).Follows ⟨ns, .ok b⟩ := by
  apply hx.bind_last
  rw [hf]
  exact follows_pure

theorem Follows.bind_error (hx : x.Follows ⟨ns, .error stop⟩) :
    (x >>= f).Follows ⟨ns, .error stop⟩ := by
  intro o
  change EStateM.bind x f o = _
  rw [EStateM.bind, hx o]

theorem Follows.map (hx : x.Follows ⟨ns, .ok a⟩) : (g <$> x).Follows ⟨ns, .ok (g a)⟩ := by
  intro o
  change EStateM.map g x o = _
  rw [EStateM.map, hx o]

theorem Follows.map_error (hx : x.Follows ⟨ns, .error stop⟩) :
    (g <$> x).Follows ⟨ns, .error stop⟩ := by
  intro o
  change EStateM.map g x o = _
  rw [EStateM.map, hx o]

theorem Follows.run {t : Traced α} (h : x.Follows t) (o : Optimizer) :
    o.run x = (t, o.sendAll t.notes) := by
  obtain ⟨ns, out⟩ := t
  have sent : (o.sendAll ns).log.drop o.log.length = ns := by simp [Optimizer.sendAll_eq]
  rw [Optimizer.run, h o]
  cases out <;> simp only [sent]

end

end Pass

/-! Small facts about nodes and slots. -/

namespace Node
open Pass

theorem follows_required {x : Pass (Option Node)} {f : Node → Pass α}
    (hx : x.Follows ⟨ns, .ok (some n)⟩) (hf : (f n).Follows ⟨ns', out⟩) :
    (do let r ← x; let n ← required role r; f n).Follows ⟨ns ++ ns', out⟩ :=
  hx.bind (follows_pure.bind hf)

theorem follows_required_last {x : Pass (Option Node)} {f : Node → Pass α}
    (hx : x.Follows ⟨ns, .ok (some n)⟩) (hf : (f n).Follows ⟨[], out⟩) :
    (do let r ← x; let n ← required role r; f n).Follows ⟨ns, out⟩ :=
  hx.bind_last (follows_pure.bind hf)

@[simp] theorem isDead_none : isDead none = true := rfl

@[simp] theorem isDead_some (n : Node) : isDead (some n) = n.isEmptyBlock := rfl

theorem isEmptyBlock_iff {n : Node} : n.isEmptyBlock = true ↔ ∃ p, n = block [] p := by
  unfold isEmptyBlock
  split <;> simp_all

@[simp] theorem immediate?_immediate : (immediate v p).immediate? = some v := rfl

@[simp] theorem immediate?_binary : (binary op l r p).immediate? = none := rfl

theorem immediate?_eq_some {n : Node} {v : Int16} :
    n.immediate? = some v ↔ ∃ p, n = immediate v p := by
  unfold immediate?
  split <;> simp_all

end Node

end EventScript
