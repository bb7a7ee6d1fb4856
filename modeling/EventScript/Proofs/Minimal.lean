import EventScript.Proofs.Occurrence
import EventScript.Proofs.Halt
import EventScript.Proofs.Shift

/-! A result is as small as the rules can make it. Whoever emits the code walks over it once and
finds no constant left to compute, no product or quotient that is a shift, no element at a known
place, and no construct around nothing. -/
namespace EventScript
open Node

theorem BinaryOp.reduceStrength_eq_none_iff {op : BinaryOp} :
    op.reduceStrength v = .ok none ↔ (op = .mul ∨ op = .div → ∀ k : Nat, v.toInt ≠ 2 ^ k) := by
  rw [reduceStrength_eq]
  cases power : isPowerOfTwo v with
  | false =>
    have never : ∀ k : Nat, v.toInt ≠ 2 ^ k := fun k hv => by
      rw [isPowerOfTwo_of_toInt hv] at power
      cases power
    simp [never]
  | true =>
    obtain ⟨k, hv⟩ := isPowerOfTwo_iff.mp power
    have some : ∃ x : Nat, (2 : Int) ^ k = 2 ^ x := ⟨k, rfl⟩
    cases op <;> simp [shift?, hv, some]

namespace Node

/-- No rule has anything left to do at this node. -/
def Minimal : Node → Prop
  | block statements _ => ∀ s ∈ statements, s.isEmptyBlock = false
  | foldedIf op left right onTrue onFalse _ _ =>
      op.isCondition = true ∧ (left.immediate? = none ∨ right.immediate? = none) ∧
        (onTrue.isEmptyBlock = false ∨ ∃ n ∈ onFalse, n.isEmptyBlock = false)
  | foldedWhile op left right body _ =>
      op.isCondition = true ∧ (left.immediate? = none ∨ right.immediate? = none) ∧
        body.isEmptyBlock = false
  | binary op left right _ =>
      (left.immediate? = none ∨ right.immediate? = none) ∧
        (op = .mul ∨ op = .div → ∀ v, right.immediate? = some v → ∀ k : Nat, v.toInt ≠ 2 ^ k)
  | unary _ operand _ => operand.immediate? = none
  | element _ _ index _ => index.immediate? = none
  | _ => True

/-- Every node of this slot that is not in the arguments of a call is minimal. -/
def AllMinimal (r : Option Node) : Prop :=
  ∀ x ∈ outerSlot r, x.Minimal

theorem allMinimal_none : AllMinimal none := by
  simp [AllMinimal, outerSlot]

theorem allMinimal_some {n : Node} :
    AllMinimal (some n) ↔
      n.Minimal ∧ (n.isCall = false → ∀ c ∈ n.children, AllMinimal (some c)) :=
  forall_mem_outer

theorem allMinimal_leaf {n : Node} (h : n.Minimal) (leaf : n.outer = [n]) :
    AllMinimal (some n) := by
  rw [AllMinimal, outerSlot, leaf]
  exact List.forall_mem_singleton.mpr h

theorem allMinimal_immediate : AllMinimal (some (immediate v p)) :=
  allMinimal_leaf trivial rfl

theorem allMinimal_getD_block {r : Option Node} (h : AllMinimal r) :
    AllMinimal (some (r.getD (block [] p))) := by
  cases r with
  | none => exact allMinimal_leaf (List.forall_mem_nil _) rfl
  | some n => exact h

theorem allMinimal_operands (h : AllMinimal (some (binary op l r p))) :
    (l.immediate? = none ∨ r.immediate? = none) ∧ AllMinimal (some l) ∧ AllMinimal (some r) := by
  have test := allMinimal_some.mp h
  have parts := test.2 rfl
  exact ⟨test.1.1, parts l (by simp [children]), parts r (by simp [children])⟩

theorem alive_branch {t e : Option Node} (alive : (isDead t && isDead e) = false) :
    (t.getD (block [] p)).isEmptyBlock = false ∨ ∃ n ∈ e, n.isEmptyBlock = false := by
  rcases Bool.and_eq_false_iff.mp alive with ht | he
  · cases t with
    | none => cases ht
    | some n => exact .inl ht
  · cases e with
    | none => cases he
    | some n => exact .inr ⟨n, rfl, he⟩

end Node

namespace Reduction

theorem allMinimal (h : Reduction s ns r) : AllMinimal r := by
  induction h with
  | skip | ifEmpty | whileAlwaysFalse | whileEmpty => exact allMinimal_none
  | blockNil => exact allMinimal_leaf (List.forall_mem_nil _) rfl
  | blockDrop _ _ _ _ ihrest => exact ihrest
  | blockKeep _ full _ ihs ihrest =>
    have rest := allMinimal_some.mp ihrest
    apply allMinimal_some.mpr
    constructor
    · exact List.forall_mem_cons.mpr ⟨full, rest.1⟩
    · exact fun _ => List.forall_mem_cons.mpr ⟨ihs, rest.2 rfl⟩
  | assign _ _ iht ihv =>
    apply allMinimal_some.mpr
    exact ⟨trivial, fun _ => by simp [children, iht, ihv]⟩
  | ifAlwaysTrue _ _ _ _ _ _ iht _ => exact iht
  | ifAlwaysFalse _ _ _ _ _ _ ihe => exact ihe
  | ifFused _ hop _ _ alive ihc iht ihe =>
    have test := allMinimal_operands ihc
    apply allMinimal_some.mpr
    constructor
    · exact ⟨hop, test.1, alive_branch alive⟩
    · intro _ c hc
      simp only [children, List.mem_cons, Option.mem_toList] at hc
      rcases hc with rfl | rfl | rfl | hc
      · exact test.2.1
      · exact test.2.2
      · exact allMinimal_getD_block iht
      · exact Option.mem_def.mp hc ▸ ihe
  | whileFused _ hop _ alive ihc ihb =>
    have test := allMinimal_operands ihc
    apply allMinimal_some.mpr
    constructor
    · exact ⟨hop, test.1, alive⟩
    · exact fun _ => by simp [children, test.2, ihb]
  | binaryShifted _ hopen _ hs ihl _ =>
    apply allMinimal_some.mpr
    constructor
    · refine ⟨.inl hopen, fun hshift => ?_⟩
      have hop := (BinaryOp.reduceStrength_eq_some hs).2.2
      rcases hop with ⟨-, rfl⟩ | ⟨-, rfl⟩ <;> simp at hshift
    · exact fun _ => by simp [children, ihl, allMinimal_immediate]
  | binaryKept _ _ hopen hs ihl ihr =>
    apply allMinimal_some.mpr
    constructor
    · exact ⟨hopen, fun hop v hv => BinaryOp.reduceStrength_eq_none_iff.mp (hs v hv) hop⟩
    · exact fun _ => by simp [children, ihl, ihr]
  | unaryKept _ hopen ih =>
    apply allMinimal_some.mpr
    exact ⟨hopen, fun _ => by simp [children, ih]⟩
  | elementKept _ hopen ih =>
    apply allMinimal_some.mpr
    exact ⟨hopen, fun _ => by simp [children, ih]⟩
  | declare | invoke | binaryFolded | unaryFolded | immediate | cell | elementResolved =>
    exact allMinimal_leaf trivial rfl

end Reduction

namespace Node

/-- Outside the arguments of calls, no rule has anything left to do in a result. -/
theorem optimize_minimal {t r : Node} (hr : t.optimize.outcome = .ok (some r)) :
    ∀ path n, r.at? path = some n → ¬ r.InArguments path → n.Minimal := by
  intro path n hn hout
  exact (reduction_of_outcome hr).allMinimal n (mem_outer_iff.mpr ⟨path, hn, hout⟩)

def trimming : Node :=
  block
    [ifWhen (binary .gt (cell .read 0 none)
        (binary .mul (cell .read 1 none) (immediate 4 none) none) none)
      (block [block [] none] none)
      (some (assign (cell .write 0 none)
        (binary .div (cell .read 0 none) (immediate 3 none) none) none)) ⟨false, none⟩ none] none

def trimmed : Node :=
  block
    [foldedIf .gt (cell .read 0 none)
      (binary .shiftLeft (cell .read 1 none) (immediate 2 none) none) (block [] none)
      (some (assign (cell .write 0 none)
        (binary .div (cell .read 0 none) (immediate 3 none) none) none)) ⟨false, none⟩ none] none

theorem trimming_minimal :
    trimming.optimize.outcome = .ok (some trimmed) ∧
      (binary .shiftLeft (cell .read 1 none) (immediate 2 none) none).Minimal := by
  have reached : ¬ trimmed.InArguments [0, 1] :=
    not_inArguments_cons rfl rfl (not_inArguments_cons rfl rfl (not_inArguments_nil _))
  exact ⟨rfl, optimize_minimal (t := trimming) (r := trimmed) rfl [0, 1] _ rfl reached⟩

end Node

end EventScript
