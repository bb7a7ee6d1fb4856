import EventScript.Proofs.Evaluation

/-! Products and quotients by powers of two. Where no quotient inside the first operand is rounded
down, a product keeps its value, and a quotient keeps it exactly where the operand is a constant, is
not negative or is a multiple of the divisor; any other quotient becomes smaller by one. -/
namespace EventScript.Node

/-- If the optimizer accepts the expression, what is left of it has its value in this memory. -/
def KeepsValue (m : Memory) (e : Node) : Prop :=
  ∀ r, e.optimize.outcome = .ok r → ∃ n, r = some n ∧ n.eval m = e.eval m

theorem exact_mul (hx : x.Exact m) : (binary .mul x (immediate b q) p).Exact m := by
  rw [Exact]
  exact ⟨hx, trivial, fun hop => by cases hop⟩

theorem exact_div (hx : x.Exact m) (hv : x.eval m = some a)
    (h : x.constant?.isSome = true ∨ IsExactDividend a b) :
    (binary .div x (immediate b q) p).Exact m := by
  rw [Exact]
  refine ⟨hx, trivial, fun _ hopen b' hb' _ a' ha' => ?_⟩
  cases Option.some.inj (hv.symm.trans ha')
  cases hb'
  simpa [hopen] using h

end EventScript.Node

namespace EventScript.Reduction
open Node

theorem binary_isSome (h : Reduction (some (binary op l r p)) ns s) : ∃ n, s = some n := by
  cases h <;> exact ⟨_, rfl⟩

theorem div_cases (hb : isPowerOfTwo b = true)
    (h : Reduction (some (binary .div x (.immediate b q) p)) ns (some n)) :
    x.constant?.isSome = true ∨
      ∃ ns' x', Reduction (some x) ns' (some x') ∧
        n = binary .shiftRight x' (.immediate (trailingZeros b) q) p := by
  have shifts := (BinaryOp.reduceStrength_of_isPowerOfTwo hb).2
  cases h with
  | binaryFolded hl _ _ => exact .inl (by rw [hl.constant?_eq]; rfl)
  | binaryShifted hl hopen hr hs =>
    cases hr
    cases hs.symm.trans shifts
    exact .inr ⟨_, _, hl, rfl⟩
  | binaryKept _ hr _ hs =>
    cases hr
    cases (hs b rfl).symm.trans shifts

end EventScript.Reduction

namespace EventScript.Node

/-- Where no quotient in the first operand is rounded down, a product by a power of two keeps its
value; a quotient keeps its value or, if it becomes a shift and the dividend is negative and no
multiple of the divisor, is one less. -/
theorem optimize_power_of_two {x : Node} {m : Memory} {a b : Int16} {k : Nat}
    (hb : b.toInt = 2 ^ k) (hv : x.eval m = some a) (hx : x.Exact m) :
    (binary .mul x (immediate b q) p).KeepsValue m ∧
    ∀ r, (binary .div x (immediate b q) p).optimize.outcome = .ok r →
      ∃ n v w, r = some n ∧ n.eval m = some v ∧
        (binary .div x (immediate b q) p).eval m = some w ∧
        v.toInt = if x.constant?.isSome ∨ IsExactDividend a b then w.toInt else w.toInt - 1 := by
  have power := isPowerOfTwo_of_toInt hb
  have arithmetic := Arithmetic.of_eval hv
  constructor
  · intro r hr
    have h := reduction_of_outcome hr
    obtain ⟨n, rfl⟩ := h.binary_isSome
    exact ⟨n, rfl, h.eval_eq (.binary arithmetic .immediate) (exact_mul hx)⟩
  · intro r hr
    have h := reduction_of_outcome hr
    obtain ⟨n, rfl⟩ := h.binary_isSome
    obtain ⟨v, w, shifted, divided, below⟩ := apply_shiftRight_div power a
    have quotient : (binary .div x (immediate b q) p).eval m = some w := by
      simp only [eval, hv, Option.bind_eq_bind, Option.bind_some, divided]
    by_cases same : x.constant?.isSome ∨ IsExactDividend a b
    · have kept := h.eval_eq (.binary arithmetic .immediate) (exact_div hx hv same)
      exact ⟨n, w, w, rfl, kept.trans quotient, quotient, by rw [if_pos same]⟩
    · obtain ⟨varies, inexact⟩ := not_or.mp same
      obtain hconst | ⟨ns, x', hl, rfl⟩ := h.div_cases power
      · exact absurd hconst varies
      · rw [if_neg inexact] at below
        refine ⟨_, v, w, rfl, ?_, quotient, by rw [if_neg same, below]⟩
        simp only [eval, hl.eval_eq arithmetic hx, hv, Option.bind_eq_bind, Option.bind_some,
          shifted]

def quartering : Node :=
  binary .div (cell .read 0 none) (immediate 4 none) none

def quartered : Node :=
  binary .shiftRight (cell .read 0 none) (immediate 2 none) none

theorem quartering_power_of_two :
    (binary .mul (cell .read 0 none) (immediate 4 none) none).KeepsValue (fun _ => -7) ∧
      quartering.optimize.outcome = .ok (some quartered) ∧
      ∃ v w, quartered.eval (fun _ => -7) = some v ∧ quartering.eval (fun _ => -7) = some w ∧
        v.toInt = w.toInt - 1 := by
  have four : (4 : Int16).toInt = 2 ^ 2 := rfl
  have both := optimize_power_of_two (x := cell .read 0 none) (m := fun _ => -7) (q := none)
    (p := none) four rfl trivial
  obtain ⟨n, v, w, hn, hv, hw, below⟩ := both.2 (some quartered) rfl
  cases hn
  exact ⟨both.1, rfl, v, w, hv, hw, below⟩

theorem quotient_not_always_kept :
    ¬ (binary .div (cell .read 0 none) (immediate 2 none) none).KeepsValue (fun _ => -1) ∧
    ¬ (binary .mul (binary .div (cell .read 0 none) (immediate 2 none) none) (immediate 4 none)
        none).KeepsValue (fun _ => -1) := by
  constructor
  · intro keeps
    obtain ⟨n, hn, same⟩ := keeps (some (binary .shiftRight (cell .read 0 none)
      (immediate 1 none) none)) rfl
    cases hn
    exact absurd same (by decide)
  · intro keeps
    obtain ⟨n, hn, same⟩ := keeps (some (binary .shiftLeft (binary .shiftRight (cell .read 0 none)
      (immediate 1 none) none) (immediate 2 none) none)) rfl
    cases hn
    exact absurd same (by decide)

end EventScript.Node
