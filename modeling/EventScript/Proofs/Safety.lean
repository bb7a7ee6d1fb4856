import EventScript.Proofs.Emittable
import EventScript.Proofs.WellFormed

/-! No tree that a front end makes breaks a promise on which the optimizer relies. A test stays a
test or becomes a constant, an expression never vanishes, and an index within bounds gives an
address; so every run ends with a result or with the rejection of the script. -/
namespace EventScript
open Node

/-! ### What is left of expressions -/

namespace Reduction

theorem misshapen?_comparison (h : Reduction (some (.binary op l r p)) ns (some n))
    (hop : op.isCondition = true) : n.misshapen? = none := by
  cases h with
  | binaryFolded => rfl
  | binaryShifted _ _ _ hs =>
    obtain ⟨rfl, -⟩ | ⟨rfl, -⟩ := (BinaryOp.reduceStrength_eq_some hs).2.2 <;> cases hop
  | binaryKept => exact if_pos hop

end Reduction

namespace Grammar
variable {g : Grammar}

theorem Expression.isSome (he : g.Expression e) (h : Reduction (some e) ns r) :
    r.isSome = true := by
  cases he <;> cases h <;> rfl

theorem Target.isSome (ht : g.Target t) (h : Reduction (some t) ns r) : r.isSome = true := by
  cases ht <;> cases h <;> rfl

theorem Test.misshapen? (hc : g.Test c) (h : Reduction (some c) ns (some c')) :
    c'.misshapen? = none := by
  cases hc with
  | constant => cases h; rfl
  | comparison hop => exact h.misshapen?_comparison hop

/-! ### Runs over well-formed trees -/

theorem Expression.part (h : g.Expression e) (hc : (role, c) ∈ e.parts) : g.Expression c := by
  cases h with
  | immediate | load | call => cases hc
  | arrayRead _ hi =>
    cases List.mem_singleton.mp hc
    exact hi
  | unary hn =>
    cases List.mem_singleton.mp hc
    exact hn
  | binary hl hr =>
    obtain hc | hc := List.mem_pair.mp hc <;> cases hc
    · exact hl
    · exact hr

theorem Target.part (h : g.Target t) (hc : (role, c) ∈ t.parts) : g.Expression c := by
  cases h with
  | store => cases hc
  | arrayWrite _ hi =>
    cases List.mem_singleton.mp hc
    exact hi

theorem Statement.part (h : g.Statement n) (hc : (role, c) ∈ n.parts) :
    role = none ∧ g.Statement c ∨ g.Expression c ∨ g.Target c := by
  cases h with
  | block hs =>
    obtain ⟨s, mem, same⟩ := List.mem_map.mp hc
    cases same
    exact .inl ⟨rfl, hs _ mem⟩
  | assign ht hv =>
    obtain hc | hc := List.mem_pair.mp hc <;> cases hc
    · exact .inr (.inr ht)
    · exact .inr (.inl hv)
  | ifWhen test ht he =>
    simp only [parts, List.mem_cons, List.mem_map, Option.mem_toList] at hc
    obtain hc | hc | ⟨n, mem, hc⟩ := hc <;> cases hc
    · exact .inr (.inl test.expression)
    · exact .inl ⟨rfl, ht⟩
    · exact .inl ⟨rfl, he _ mem⟩
  | whileLoop test hb =>
    obtain hc | hc := List.mem_pair.mp hc <;> cases hc
    · exact .inr (.inl test.expression)
    · exact .inl ⟨rfl, hb⟩
  | declare | call => cases hc

theorem WellFormed.part (h : g.WellFormed n) (hc : (role, c) ∈ n.parts) :
    role = none ∧ g.Statement c ∨ g.Expression c ∨ g.Target c := by
  cases h with
  | statement h => exact h.part hc
  | expression h => exact .inr (.inl (h.part hc))
  | target h => exact .inr (.inl (h.part hc))

theorem WellFormed.of_part (h : g.WellFormed n) (hc : (role, c) ∈ n.parts) : g.WellFormed c := by
  obtain ⟨-, h⟩ | h | h := h.part hc
  · exact .statement h
  · exact .expression h
  · exact .target h

theorem WellFormed.part_isSome (h : g.WellFormed n) (hc : (some role, c) ∈ n.parts)
    (hr : Reduction (some c) ns r) : r.isSome = true := by
  obtain ⟨hrole, -⟩ | h | h := h.part hc
  · cases hrole
  · exact h.isSome hr
  · exact h.isSome hr

theorem WellFormed.admits (h : g.WellFormed (element access array i p)) : g.Admits array := by
  cases h with
  | statement h => cases h
  | expression h => cases h; assumption
  | target h => cases h; assumption

theorem WellFormed.ifWhen_test (h : g.WellFormed (ifWhen c t e form p)) : g.Test c := by
  cases h with
  | statement h => cases h; assumption
  | expression h => cases h
  | target h => cases h

theorem WellFormed.while_test (h : g.WellFormed (whileLoop c b p)) : g.Test c := by
  cases h with
  | statement h => cases h; assumption
  | expression h => cases h
  | target h => cases h

theorem WellFormed.isFolded (h : g.WellFormed n) : n.isFolded = false := by
  cases h with
  | statement h | expression h | target h => cases h <;> rfl

theorem WellFormed.refused (h : g.WellFormed n) (bounded : g.bounded = true)
    (parts : Parts n.parts ns rs) (refused : Refuses n rs stop) : ∃ e, stop = .rejected e := by
  cases refused with
  | divisionByZero | rangeOverflow | indexOutOfBounds | infiniteLoop => exact ⟨_, rfl⟩
  | strength _ hs => exact (BinaryOp.reduceStrength_ne_error hs).elim
  | addressOverflow low high overflow =>
    have fits := of_decide_eq_true (h.admits bounded)
    exact absurd (by omega) overflow
  | ifTest _ shape =>
    obtain _ | ⟨hc, -⟩ := parts
    rw [h.ifWhen_test.misshapen? hc] at shape
    cases shape
  | whileTest _ shape =>
    obtain _ | ⟨hc, -⟩ := parts
    rw [h.while_test.misshapen? hc] at shape
    cases shape
  | folded hn =>
    rw [h.isFolded] at hn
    cases hn

/-- Whatever stops a run over a well-formed tree is the script's own fault. -/
theorem WellFormed.halt (h : g.WellFormed n) (bounded : g.bounded = true)
    (halt : Halt n ns stop) : ∃ e, stop = .rejected e := by
  induction halt with
  | part split _ _ ih => exact ih (h.of_part (split ▸ List.mem_append_cons_self))
  | vanished split _ gone =>
    cases h.part_isSome (split ▸ List.mem_append_cons_self) gone
  | refused parts refused => exact h.refused bounded parts refused

theorem WellFormed.ends (h : g.WellFormed t) (bounded : g.bounded = true) :
    (∃ r, t.optimize.outcome = .ok r) ∨ ∃ e, t.optimize.outcome = .error (.rejected e) := by
  obtain ⟨ns, r, hr⟩ | ⟨ns, stop, hs⟩ := t.ends
  · exact .inl ⟨r, by rw [hr.optimize_eq]⟩
  · obtain ⟨e, rfl⟩ := h.halt bounded hs
    exact .inr ⟨e, by rw [hs.optimize_eq]⟩

end Grammar

/-! ### Calls keep expressions as arguments -/

namespace Node

/-- Every call of the tree, wherever it stands, has emittable arguments. -/
def PlainCalls (n : Node) : Prop :=
  ∀ x, n.Contains x → x.isCall = true → ∀ a ∈ x.children, a.isEmittable = true

theorem PlainCalls.of_children {n : Node} (parts : ∀ c ∈ n.children, c.PlainCalls)
    (args : n.isCall = true → ∀ a ∈ n.children, a.isEmittable = true) : n.PlainCalls := by
  intro x hx call
  rcases contains_iff.mp hx with rfl | ⟨c, hc, hx⟩
  · exact args call
  · exact parts c hc x hx call

theorem PlainCalls.of_parts {n : Node} (other : n.isCall = false)
    (parts : ∀ c ∈ n.children, c.PlainCalls) : n.PlainCalls := by
  apply PlainCalls.of_children parts
  intro call
  rw [other] at call
  cases call

theorem PlainCalls.of_isEmittable {n : Node} (h : n.isEmittable = true) : n.PlainCalls := by
  induction n using children_induction with
  | step n ih =>
    have parts := (isEmittable_iff.mp h).2
    exact .of_children (fun c hc => ih c hc (parts c hc)) fun _ => parts

/-- The calls of a result are calls of the tree, and nothing else decides if it is emittable. -/
theorem PlainCalls.isEmittable_result {t r : Node} (h : t.PlainCalls)
    (hr : t.optimize.outcome = .ok (some r)) : r.isEmittable = true := by
  have account := (reduction_of_outcome hr).accounted
  rw [isEmittable_iff_outer, callsEmittable_iff]
  constructor
  · intro x hx
    exact (account x hx).1
  · intro x hx call
    exact h x ((account x hx).contains call) call

end Node

namespace Grammar
variable {g : Grammar}

theorem Expression.isEmittable (h : g.Expression n) : n.isEmittable = true := by
  induction h with
  | immediate | load => rfl
  | arrayRead _ _ ih => simpa [Node.isEmittable] using ih
  | unary _ ih => simpa [Node.isEmittable] using ih
  | binary _ _ ihl ihr => simp [Node.isEmittable, ihl, ihr]
  | call _ _ ih => rw [Node.isEmittable]; exact allEmittable_iff.mpr ih

theorem Target.isEmittable (h : g.Target n) : n.isEmittable = true := by
  cases h with
  | store => rfl
  | arrayWrite _ hi => rw [Node.isEmittable]; exact hi.isEmittable

theorem Statement.plainCalls (h : g.Statement n) : n.PlainCalls := by
  induction h with
  | block _ ih => exact .of_parts rfl ih
  | assign ht hv =>
    apply PlainCalls.of_parts rfl
    simp only [children, List.forall_mem_cons]
    exact ⟨.of_isEmittable ht.isEmittable, .of_isEmittable hv.isEmittable, List.forall_mem_nil _⟩
  | ifWhen hc _ _ iht ihe =>
    apply PlainCalls.of_parts rfl
    simp only [children, List.forall_mem_cons, Option.mem_toList]
    exact ⟨.of_isEmittable hc.expression.isEmittable, iht, ihe⟩
  | whileLoop hc _ ihb =>
    apply PlainCalls.of_parts rfl
    simp only [children, List.forall_mem_cons]
    exact ⟨.of_isEmittable hc.expression.isEmittable, ihb, List.forall_mem_nil _⟩
  | declare => exact .of_parts rfl (List.forall_mem_nil _)
  | call hargs =>
    apply PlainCalls.of_isEmittable
    rw [Node.isEmittable]
    exact allEmittable_iff.mpr fun a ha => (hargs a ha).isEmittable

theorem WellFormed.plainCalls (h : g.WellFormed t) : t.PlainCalls := by
  cases h with
  | statement h => exact h.plainCalls
  | expression h => exact .of_isEmittable h.isEmittable
  | target h => exact .of_isEmittable h.isEmittable

end Grammar

namespace Node
open Grammar

/-- On a tree of a front end every run ends, with a program or with the rejection of the script,
whether notes are held or not; and where a constant becomes the count of a shift, it is a power of
two. -/
theorem optimizeProgram_never_faults {t : Node} (h : frontEnd.WellFormed t) (tracing : Bool) :
    ((∃ program, (t.optimizeProgram tracing).outcome = .ok program) ∨
      ∃ e, (t.optimizeProgram tracing).outcome = .error (.rejected e)) ∧
    ∀ (op : BinaryOp) b shift count, op.reduceStrength b = .ok (some (shift, count)) →
      checkedLog2 b = .ok count := by
  constructor
  · rw [optimizeProgram_outcome]
    obtain ⟨r, hr⟩ | ⟨e, he⟩ := h.ends rfl
    · have emittable : r.all isEmittable = true := by
        cases r with
        | none => rfl
        | some r => exact h.plainCalls.isEmittable_result hr
      rw [hr]
      exact .inl ⟨_, if_pos emittable⟩
    · rw [he]
      exact .inr ⟨e, rfl⟩
  · intro op b shift count hs
    have reduced := BinaryOp.reduceStrength_eq_some hs
    rw [checkedLog2, if_pos reduced.1, reduced.2.1]

def filling : Node :=
  whileLoop (binary .lt (cell .read 0 none) (invoke (.function 0) [immediate 2 none] none) none)
    (assign (element .write ⟨18446744073709551614, 2, "tail"⟩ (immediate 1 none) none)
      (binary .mul (element .read ⟨18446744073709551614, 2, "tail"⟩ (cell .read 0 none) none)
        (immediate 8 none) none) none) none

theorem filling_never_faults :
    frontEnd.WellFormed filling ∧
      ((∃ program, (filling.optimizeProgram true).outcome = .ok program) ∨
        ∃ e, (filling.optimizeProgram true).outcome = .error (.rejected e)) := by
  have test : frontEnd.Test (binary .lt (cell .read 0 none)
      (invoke (.function 0) [immediate 2 none] none) none) := by
    refine .comparison rfl .load (.call rfl fun a ha => ?_)
    rw [List.mem_singleton.mp ha]
    exact .immediate
  have formed : frontEnd.WellFormed filling :=
    .statement (.whileLoop test (.assign (.arrayWrite (fun _ => by decide) .immediate)
      (.binary (.arrayRead (fun _ => by decide) .load) .immediate)))
  exact ⟨formed, (optimizeProgram_never_faults formed true).1⟩

end Node

end EventScript
