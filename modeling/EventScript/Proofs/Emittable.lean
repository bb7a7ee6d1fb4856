import EventScript.Proofs.Session
import EventScript.Proofs.Shift

/-! What whoever emits the code can rely on. The only unfolded constructs that are left in a result
are those in the arguments of calls, and the calls are those of the tree; so whether a result is
emittable is decided by the arguments of its outer calls alone. -/
namespace EventScript
open Node

namespace Node

theorem allEmittable_iff {ns : List Node} :
    allEmittable ns = true ↔ ∀ n ∈ ns, n.isEmittable = true := by
  induction ns with
  | nil => simp [allEmittable]
  | cons n rest ih => simp [allEmittable, ih]

theorem isUnfolded_kind (n : Node) :
    n.kind.isUnfolded = match n with
      | ifWhen .. | whileLoop .. => true
      | _ => false := by
  cases n with
  | declare entity p => cases entity <;> rfl
  | invoke callee args p => cases callee <;> rfl
  | cell access address p => cases access <;> rfl
  | element access array i p => cases access <;> rfl
  | _ => rfl

theorem isEmittable_iff {n : Node} :
    n.isEmittable = true ↔
      n.kind.isUnfolded = false ∧ ∀ c ∈ n.children, c.isEmittable = true := by
  rw [isUnfolded_kind]
  cases n with
  | foldedIf op l r t e form p => cases e <;> simp [isEmittable, children, and_assoc]
  | _ => simp [isEmittable, children, allEmittable_iff, and_assoc]

def CallsEmittable (n : Node) : Prop :=
  ∀ path callee args p, n.at? path = some (invoke callee args p) → ¬ n.InArguments path →
    ∀ a ∈ args, a.isEmittable = true

theorem callsEmittable_iff {n : Node} :
    n.CallsEmittable ↔
      ∀ x ∈ n.outer, x.isCall = true → ∀ a ∈ x.children, a.isEmittable = true := by
  constructor
  · intro h x hx call
    obtain ⟨callee, args, p, rfl⟩ := isCall_iff.mp call
    obtain ⟨path, hpath, hout⟩ := mem_outer_iff.mp hx
    exact h path callee args p hpath hout
  · intro h path callee args p hpath hout
    exact h _ (mem_outer_iff.mpr ⟨path, hpath, hout⟩) rfl

theorem isEmittable_iff_outer {n : Node} :
    n.isEmittable = true ↔ (∀ x ∈ n.outer, x.kind.isUnfolded = false) ∧ n.CallsEmittable := by
  rw [callsEmittable_iff]
  induction n using children_induction with
  | step n ih =>
    rw [isEmittable_iff, forall_mem_outer, forall_mem_outer]
    cases call : n.isCall with
    | true => simp
    | false =>
      constructor
      · rintro ⟨plain, parts⟩
        exact ⟨⟨plain, fun _ c hc => ((ih c hc).mp (parts c hc)).1⟩,
          by simp, fun _ c hc => ((ih c hc).mp (parts c hc)).2⟩
      · rintro ⟨⟨plain, hplain⟩, -, hcalls⟩
        exact ⟨plain, fun c hc => (ih c hc).mpr ⟨hplain rfl c hc, hcalls rfl c hc⟩⟩

/-- A node that is left outside call arguments is accounted for: it is not unfolded, and if it is
a call, the slot it came from has it too. -/
def Accounted (s : Option Node) (x : Node) : Prop :=
  x.kind.isUnfolded = false ∧ (x.isCall = true → ∃ n, s = some n ∧ n.Contains x)

theorem Accounted.made {x : Node} (plain : x.kind.isUnfolded = false) (other : x.isCall = false) :
    Accounted s x := by
  refine ⟨plain, fun call => ?_⟩
  rw [other] at call
  cases call

theorem Accounted.contains (h : Accounted (some n) x) (call : x.isCall = true) : n.Contains x := by
  obtain ⟨m, hm, hx⟩ := h.2 call
  cases hm
  exact hx

theorem Accounted.part {s : Option Node} (h : Accounted s x) (hs : ∀ c ∈ s, c ∈ n.children) :
    Accounted (some n) x := by
  refine ⟨h.1, fun call => ?_⟩
  obtain ⟨c, rfl, hx⟩ := h.2 call
  exact ⟨n, rfl, hx.child (hs c rfl)⟩

theorem Accounted.block_cons (h : Accounted (some (block rest p)) x) :
    Accounted (some (block (s :: rest) p)) x := by
  refine ⟨h.1, fun call => ?_⟩
  obtain rfl | ⟨c, hc, hx⟩ := contains_iff.mp (h.contains call)
  · cases call
  · exact ⟨_, rfl, hx.child (List.mem_cons_of_mem s hc)⟩

theorem mem_outer_getD_block {r : Option Node} (h : x ∈ (r.getD (block [] p)).outer) :
    x = block [] p ∨ x ∈ outerSlot r := by
  cases r with
  | none => exact .inl (List.mem_singleton.mp h)
  | some n => exact .inr h

end Node

namespace Reduction

theorem accounted (h : Reduction s ns r) : ∀ x ∈ outerSlot r, Accounted s x := by
  induction h with
  | skip | ifEmpty | whileAlwaysFalse | whileEmpty => simp [outerSlot]
  | blockDrop _ _ _ _ ihrest => exact fun x hx => (ihrest x hx).block_cons
  | blockKeep _ _ _ ihs ihrest =>
    intro x hx
    simp only [outerSlot, outer, outerAll, List.mem_cons, List.mem_append] at hx ihrest
    obtain rfl | hx | hx := hx
    · exact .made rfl rfl
    · exact (ihs x hx).part (by simp [children])
    · exact (ihrest x (.inr hx)).block_cons
  | assign _ _ iht ihv =>
    intro x hx
    simp only [outerSlot, outer, List.mem_cons, List.mem_append] at hx
    obtain rfl | hx | hx := hx
    · exact .made rfl rfl
    · exact (iht x hx).part (by simp [children])
    · exact (ihv x hx).part (by simp [children])
  | ifAlwaysTrue _ _ _ _ _ _ iht _ => exact fun x hx => (iht x hx).part (by simp [children])
  | ifAlwaysFalse _ _ _ _ _ _ ihe => exact fun x hx => (ihe x hx).part fun _ => mem_children_onFalse
  | ifFused _ _ _ _ _ ihc iht ihe =>
    intro x hx
    simp only [outerSlot, outer, List.mem_cons, List.mem_append] at hx ihc
    obtain rfl | ((hx | hx) | hx) | hx := hx
    · exact .made rfl rfl
    · exact (ihc x (.inr (.inl hx))).part (by simp [children])
    · exact (ihc x (.inr (.inr hx))).part (by simp [children])
    · obtain rfl | hx := mem_outer_getD_block hx
      · exact .made rfl rfl
      · exact (iht x hx).part (by simp [children])
    · exact (ihe x hx).part fun _ => mem_children_onFalse
  | whileFused _ _ _ _ ihc ihb =>
    intro x hx
    simp only [outerSlot, outer, List.mem_cons, List.mem_append] at hx ihc
    obtain rfl | (hx | hx) | hx := hx
    · exact .made rfl rfl
    · exact (ihc x (.inr (.inl hx))).part (by simp [children])
    · exact (ihc x (.inr (.inr hx))).part (by simp [children])
    · exact (ihb x hx).part (by simp [children])
  | invoke =>
    intro x hx
    obtain rfl := List.mem_singleton.mp hx
    exact ⟨isUnfolded_kind _, fun _ => ⟨_, rfl, [], rfl⟩⟩
  | binaryShifted _ _ _ _ ihl _ =>
    intro x hx
    simp only [outerSlot, outer, List.mem_cons, List.mem_append, List.not_mem_nil, or_false] at hx
    obtain rfl | hx | rfl := hx
    · exact .made rfl rfl
    · exact (ihl x hx).part (by simp [children])
    · exact .made rfl rfl
  | binaryKept _ _ _ _ ihl ihr =>
    intro x hx
    simp only [outerSlot, outer, List.mem_cons, List.mem_append] at hx
    obtain rfl | hx | hx := hx
    · exact .made rfl rfl
    · exact (ihl x hx).part (by simp [children])
    · exact (ihr x hx).part (by simp [children])
  | unaryKept _ _ ih =>
    intro x hx
    obtain rfl | hx := List.mem_cons.mp hx
    · exact .made rfl rfl
    · exact (ih x hx).part (by simp [children])
  | elementKept _ _ ih =>
    intro x hx
    obtain rfl | hx := List.mem_cons.mp hx
    · exact .made (isUnfolded_kind _) rfl
    · exact (ih x hx).part (by simp [children])
  | blockNil | declare | binaryFolded | unaryFolded | immediate | cell | elementResolved =>
    intro x hx
    obtain rfl := List.mem_singleton.mp hx
    exact .made (isUnfolded_kind _) rfl

end Reduction

/-- The stops of a pass over a tree; the others belong to what is done with its result. -/
def Stop.OfPass : Stop → Prop
  | .fault .notEmittable | .fault .notPowerOfTwo => False
  | .fault .paddingOverflow | .fault (.outOfMemory _) => False
  | _ => True

theorem Refuses.ofPass (h : Refuses n rs stop) : stop.OfPass := by
  cases h with
  | strength _ hs => exact (BinaryOp.reduceStrength_ne_error hs).elim
  | _ => trivial

theorem Halt.ofPass (h : Halt n ns stop) : stop.OfPass := by
  induction h with
  | part _ _ _ ih => exact ih
  | vanished => trivial
  | refused _ refused => exact refused.ofPass

namespace Node

theorem optimizeProgram_notEmittable_iff {t : Node} {tracing : Bool} :
    (t.optimizeProgram tracing).outcome = .error (.fault .notEmittable) ↔
      ∃ r, t.optimize.outcome = .ok (some r) ∧ r.isEmittable = false := by
  rw [optimizeProgram_outcome]
  cases hrun : t.optimize.outcome with
  | error stop =>
    have known := (halt_of_outcome hrun).ofPass
    constructor
    · intro h
      cases h
      exact known.elim
    · rintro ⟨r, hr, -⟩
      cases hr
  | ok left =>
    cases left with
    | none => simp [Except.bind]
    | some r => cases hr : r.isEmittable <;> simp [Except.bind, hr]

/-- What is left of a tree has unfolded constructs only in the arguments of calls, and its calls are
calls of the tree; so it is emittable exactly if the arguments of its outer calls are, and whoever
asks for an emittable program is refused exactly if they are not. -/
theorem optimize_output (t : Node) :
    (∀ r, t.optimize.outcome = .ok (some r) →
      (∀ path n, r.at? path = some n → n.kind.isUnfolded = true → r.InArguments path) ∧
      (∀ path callee args p, r.at? path = some (invoke callee args p) →
        ∃ path', t.at? path' = some (invoke callee args p)) ∧
      (r.isEmittable = true ↔ r.CallsEmittable)) ∧
    ∀ tracing, (t.optimizeProgram tracing).outcome = .error (.fault .notEmittable) ↔
      ∃ r, t.optimize.outcome = .ok (some r) ∧ ¬ r.CallsEmittable := by
  have emittable : ∀ r, t.optimize.outcome = .ok (some r) →
      (r.isEmittable = true ↔ r.CallsEmittable) := by
    intro r hr
    rw [isEmittable_iff_outer]
    exact and_iff_right fun x hx => ((reduction_of_outcome hr).accounted x hx).1
  constructor
  · intro r hr
    have haccount := (reduction_of_outcome hr).accounted
    refine ⟨?_, ?_, emittable r hr⟩
    · exact forall_outer_iff_path.mp fun x hx => (haccount x hx).1
    · intro path callee args p hpath
      obtain hcall | ⟨c, hc, hcall, hx⟩ := Contains.outer_or_call ⟨path, hpath⟩
      · exact (haccount _ hcall).contains rfl
      · exact ((haccount c hc).contains hcall).trans hx
  · intro tracing
    rw [optimizeProgram_notEmittable_iff]
    constructor
    · rintro ⟨r, hr, hbad⟩
      exact ⟨r, hr, fun h => by rw [(emittable r hr).mpr h] at hbad; cases hbad⟩
    · rintro ⟨r, hr, hbad⟩
      refine ⟨r, hr, ?_⟩
      rw [← Bool.not_eq_true, emittable r hr]
      exact hbad

def nesting : Node :=
  block [invoke (.sub 0) [whileLoop (immediate 0 none) (block [] none) none] none] none

theorem nesting_output :
    ¬ nesting.CallsEmittable ∧
      (nesting.optimizeProgram false).outcome = .error (.fault .notEmittable) := by
  obtain ⟨result, program⟩ := optimize_output nesting
  have refused : ¬ nesting.CallsEmittable := by
    rw [← (result nesting rfl).2.2]
    decide
  exact ⟨refused, (program false).mpr ⟨nesting, rfl, refused⟩⟩

end Node

end EventScript
