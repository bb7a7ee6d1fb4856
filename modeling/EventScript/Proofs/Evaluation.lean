import EventScript.Proofs.Execution
import EventScript.Proofs.Halt
import EventScript.Proofs.Shift
import EventScript.Proofs.WellFormed

/-! Reducing an expression keeps its value and its faults in every memory in which no quotient that
becomes a shift is rounded down. An expression that is reduced to a constant has that value in
every memory. -/
namespace EventScript
open Node

/-- In this memory, every division that becomes a shift has a dividend for which the two agree. -/
def Node.Exact (m : Memory) : Node → Prop
  | element _ _ index _ => index.Exact m
  | unary _ operand _ => operand.Exact m
  | binary op left right _ => left.Exact m ∧ right.Exact m ∧
      (op = .div → left.constant? = none → ∀ b, right.constant? = some b → isPowerOfTwo b = true →
        ∀ a, left.eval m = some a → IsExactDividend a b)
  | _ => True

theorem Node.Arithmetic.of_eval {e : Node} (h : e.eval m = some v) : e.Arithmetic := by
  fun_induction eval m e generalizing v with
  | case1 => exact .immediate
  | case2 => exact .load
  | case3 array i p ih =>
    obtain ⟨index, hi, -⟩ := Option.bind_eq_some_iff.mp h
    exact .arrayRead (fun h => by cases h) (ih hi)
  | case4 op n p ih =>
    obtain ⟨a, hn, -⟩ := Option.bind_eq_some_iff.mp h
    exact .unary (ih hn)
  | case5 op l r p ihl ihr =>
    obtain ⟨a, hl, h⟩ := Option.bind_eq_some_iff.mp h
    obtain ⟨b, hr, -⟩ := Option.bind_eq_some_iff.mp h
    exact .binary (ihl hl) (ihr hr)
  | case6 => cases h

namespace Reduction

theorem locate?_resolved {array : ArrayRef} {v : Int16} (low : 0 ≤ v)
    (high : v.toInt.toNat < array.size.toNat) :
    array.locate? v = some (.ofNat (array.address.toNat + v.toInt.toNat)) :=
  if_pos ⟨low, high⟩

theorem eval_eq (h : Reduction (some e) ns (some e')) (he : e.Arithmetic) (hm : e.Exact m) :
    e'.eval m = e.eval m := by
  induction he generalizing ns e' with
  | call allowed => cases allowed
  | immediate | load =>
    cases h
    rfl
  | arrayRead _ _ ih =>
    rw [Node.Exact] at hm
    cases h with
    | elementResolved hi low high fits =>
      have hindex := ih hi hm
      simp only [eval] at hindex ⊢
      rw [← hindex, Option.bind_eq_bind, Option.bind_some, locate?_resolved low high]
      rfl
    | elementKept hi _ => simp only [eval, ih hi hm]
  | unary _ ih =>
    rw [Node.Exact] at hm
    cases h with
    | unaryFolded hn hv =>
      have hoperand := ih hn hm
      simp only [eval] at hoperand ⊢
      rw [← hoperand, Option.bind_eq_bind, Option.bind_some, hv]
    | unaryKept hn _ => simp only [eval, ih hn hm]
  | @binary left right op p _ _ ihl ihr =>
    rw [Node.Exact] at hm
    obtain ⟨hml, hmr, hexact⟩ := hm
    cases h with
    | binaryFolded hl hr hv =>
      have ha := ihl hl hml
      have hb := ihr hr hmr
      simp only [eval] at ha hb ⊢
      simp only [← ha, ← hb, Option.bind_eq_bind, Option.bind_some, hv]
    | binaryShifted hl hopen hr hs =>
      have ha := ihl hl hml
      have hb := ihr hr hmr
      simp only [eval] at hb ⊢
      rw [ha, ← hb]
      cases hleft : left.eval m with
      | none => simp only [Option.bind_eq_bind, Option.bind_none]
      | some a =>
        simp only [Option.bind_eq_bind, Option.bind_some]
        refine BinaryOp.apply_of_reduceStrength hs fun hop => ?_
        refine hexact hop (by rw [hl.constant?_eq, hopen]) _ hr.constant?_eq ?_ a hleft
        exact (BinaryOp.reduceStrength_eq_some hs).1
    | binaryKept hl hr _ _ => simp only [eval, ihl hl hml, ihr hr hmr]

theorem exact_of_constant (h : Reduction (some e) ns (some (.immediate v q)))
    (he : e.Arithmetic) : e.Exact m := by
  induction he generalizing ns v q with
  | call allowed => cases allowed
  | immediate | load => trivial
  | arrayRead => cases h
  | unary _ ih =>
    cases h with
    | unaryFolded hn _ =>
      rw [Node.Exact]
      exact ih hn
  | binary _ _ ihl ihr =>
    cases h with
    | binaryFolded hl hr _ =>
      rw [Node.Exact]
      refine ⟨ihl hl, ihr hr, fun _ hopen => ?_⟩
      rw [hl.constant?_eq] at hopen
      cases hopen

theorem eval_of_constant (h : Reduction (some e) ns (some (.immediate v q)))
    (he : e.Arithmetic) : e.eval m = some v :=
  (h.eval_eq he (h.exact_of_constant he)).symm

theorem target?_eq (h : Reduction (some t) ns (some t')) (ht : Grammar.callFree.Target t)
    (hm : t.Exact m) : t'.target? m = t.target? m := by
  cases ht with
  | store =>
    cases h
    rfl
  | arrayWrite _ index =>
    rw [Node.Exact] at hm
    cases h with
    | elementResolved hi low high fits =>
      have hindex := hi.eval_eq (.of_callFree index) hm
      simp only [eval] at hindex
      simp only [target?]
      rw [← hindex, Option.bind_eq_bind, Option.bind_some, locate?_resolved low high]
    | elementKept hi _ => simp only [target?, hi.eval_eq (.of_callFree index) hm]

end Reduction

end EventScript
