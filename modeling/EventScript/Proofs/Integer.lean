import EventScript.Proofs.Shift

/-! Words as integers. What an operator gives on words is what its definition gives on the integers
they stand for, brought back into the range of the word. Shifts follow one law for every count that
is not negative, and strength reduction is judged by it: products are kept, and quotients are
rounded down instead of toward zero. -/
namespace EventScript

def wrap (x : Int) : Int := x.bmod (2 ^ 16)

theorem wrap_eq_iff {x w : Int} :
    wrap x = w ↔ -32768 ≤ w ∧ w ≤ 32767 ∧ (2 ^ 16 : Int) ∣ x - w := by
  rw [wrap, Int.bmod_eq_emod]
  split <;> omega

def truth (holds : Prop) [Decidable holds] : Int :=
  if holds then 1 else 0

/-- The operators by their definition on integers. Sums, products, quotients and shifts to the left
are brought back into the range of the word, which no other result leaves; a negative count shifts
as far as there are places. -/
def BinaryOp.onIntegers (op : BinaryOp) (a b : Int) : Option Int :=
  match op with
  | .shiftLeft => some (if 0 ≤ b then wrap (a * 2 ^ b.toNat) else 0)
  | .shiftRight => some (if 0 ≤ b then a.fdiv (2 ^ b.toNat) else a.fdiv (2 ^ 15))
  | .add => some (wrap (a + b))
  | .sub => some (wrap (a - b))
  | .mul => some (wrap (a * b))
  | .div => if b = 0 then none else some (wrap (a.tdiv b))
  | .mod => if b = 0 then none else some (a.tmod b)
  | .eq => some (truth (a = b))
  | .ne => some (truth (a ≠ b))
  | .gt => some (truth (a > b))
  | .ge => some (truth (a ≥ b))
  | .lt => some (truth (a < b))
  | .le => some (truth (a ≤ b))
  | .or => some (truth (a ≠ 0 ∨ b ≠ 0))
  | .and => some (truth (a ≠ 0 ∧ b ≠ 0))

def UnaryOp.onIntegers (op : UnaryOp) (a : Int) : Option Int :=
  match op with
  | .neg => some (wrap (-a))
  | .abs => if a = -32768 then none else some a.natAbs

/-! ### Words and their integers -/

theorem toInt_eq_zero_iff {a : Int16} : a.toInt = 0 ↔ a = 0 :=
  Int16.toInt_inj (y := 0)

theorem ne_zero_iff_toInt {a : Int16} : a ≠ 0 ↔ a.toInt ≠ 0 :=
  not_congr toInt_eq_zero_iff.symm

theorem toInt_ofTest [Decidable p] [Decidable q] (h : p ↔ q) :
    (ofTest (decide p)).toInt = truth q := by
  simp only [ofTest, truth, decide_eq_true_iff, h]
  split <;> rfl

theorem isShiftCount_iff {b : Int16} : isShiftCount b = true ↔ 0 ≤ b.toInt ∧ b.toInt < 16 := by
  rw [isShiftCount, Bool.and_eq_true, decide_eq_true_iff, decide_eq_true_iff,
    Int16.le_iff_toInt_le, Int16.lt_iff_toInt_lt]
  rfl

theorem ofNat_toNat_toInt {b : Int16} (h : 0 ≤ b.toInt) : Int16.ofNat b.toInt.toNat = b :=
  Int16.ofNat_toNatClampNeg b (Int16.le_iff_toInt_le.mpr h)

/-! ### Shifts by any count -/

theorem wrap_mul_two_pow_of_le (a : Int) (hk : 16 ≤ k) : wrap (a * 2 ^ k) = 0 := by
  have factor : (2 ^ 16 : Int) ∣ 2 ^ k := by exact_mod_cast Nat.pow_dvd_pow 2 hk
  refine wrap_eq_iff.mpr ⟨by decide, by decide, ?_⟩
  rw [Int.sub_zero]
  exact Int.dvd_mul_of_dvd_right factor

theorem toInt_shiftLeft_ofNat (a : Int16) (hk : k < 16) :
    (a <<< Int16.ofNat k).toInt = wrap (a.toInt * 2 ^ k) := by
  have power : (Int16.ofNat (2 ^ k)).toInt = (2 ^ k : Int).bmod (2 ^ 16) := by
    rw [Int16.toInt_ofNat']
    simp
  rw [shiftLeft_ofNat a hk, Int16.toInt_mul, power, Int.mul_bmod_bmod, wrap]

theorem fdiv_two_pow_of_le (a : Int16) (hk : 15 ≤ k) :
    a.toInt.fdiv (2 ^ k) = if 0 ≤ a.toInt then 0 else -1 := by
  have low := a.le_toInt
  have high := a.toInt_lt
  have grown : (2 : Int) ^ 15 ≤ 2 ^ k := by exact_mod_cast Nat.pow_le_pow_right (by decide) hk
  rw [Int.fdiv_eq_ediv_of_nonneg _ (by omega)]
  split
  · exact Int.ediv_eq_zero_of_lt (by omega) (by omega)
  · exact Int.ediv_eq_neg_one_of_neg_of_le (by omega) (by omega)

theorem toInt_shiftRight_fdiv (a : Int16) (hk : k < 16) :
    (a >>> Int16.ofNat k).toInt = a.toInt.fdiv (2 ^ k) := by
  rw [toInt_shiftRight_ofNat a hk, Int.fdiv_eq_ediv_of_nonneg _ (Int.pow_nonneg (by decide))]

namespace BinaryOp

theorem shiftLeft_onIntegers (a b : Int16) :
    (shiftLeft.apply a b).map Int16.toInt = shiftLeft.onIntegers a.toInt b.toInt := by
  rw [apply_shiftLeft, onIntegers, Option.map_some]
  congr 1
  by_cases inside : isShiftCount b = true
  · obtain ⟨low, high⟩ := isShiftCount_iff.mp inside
    rw [if_pos inside, if_pos low, ← toInt_shiftLeft_ofNat a (by omega), ofNat_toNat_toInt low]
  · rw [if_neg inside]
    rw [isShiftCount_iff] at inside
    split
    · exact (wrap_mul_two_pow_of_le _ (by omega)).symm
    · rfl

theorem shiftRight_onIntegers (a b : Int16) :
    (shiftRight.apply a b).map Int16.toInt = shiftRight.onIntegers a.toInt b.toInt := by
  have sign : (a >>> 15).toInt = a.toInt.fdiv (2 ^ 15) := toInt_shiftRight_fdiv a (by decide)
  rw [apply, onIntegers, Option.map_some]
  congr 1
  by_cases inside : isShiftCount b = true
  · obtain ⟨low, high⟩ := isShiftCount_iff.mp inside
    rw [if_pos inside, if_pos low, ← toInt_shiftRight_fdiv a (by omega), ofNat_toNat_toInt low]
  · rw [if_neg inside, sign]
    rw [isShiftCount_iff] at inside
    split
    · rw [fdiv_two_pow_of_le a (Nat.le_refl 15), fdiv_two_pow_of_le a (by omega)]
    · rfl

theorem map_toInt_apply (op : BinaryOp) (a b : Int16) :
    (op.apply a b).map Int16.toInt = op.onIntegers a.toInt b.toInt := by
  cases op with
  | shiftLeft => exact shiftLeft_onIntegers a b
  | shiftRight => exact shiftRight_onIntegers a b
  | add => exact congrArg some (Int16.toInt_add a b)
  | sub => exact congrArg some (Int16.toInt_sub a b)
  | mul => exact congrArg some (Int16.toInt_mul a b)
  | div =>
    simp only [apply, onIntegers, toInt_eq_zero_iff]
    split
    · rfl
    · exact congrArg some (Int16.toInt_div a b)
  | mod =>
    simp only [apply, onIntegers, toInt_eq_zero_iff]
    split
    · rfl
    · exact congrArg some (Int16.toInt_mod a b)
  | eq => exact congrArg some (toInt_ofTest Int16.toInt_inj.symm)
  | ne => exact congrArg some (toInt_ofTest (not_congr Int16.toInt_inj.symm))
  | gt => exact congrArg some (toInt_ofTest Int16.lt_iff_toInt_lt)
  | ge => exact congrArg some (toInt_ofTest Int16.le_iff_toInt_le)
  | lt => exact congrArg some (toInt_ofTest Int16.lt_iff_toInt_lt)
  | le => exact congrArg some (toInt_ofTest Int16.le_iff_toInt_le)
  | or => exact congrArg some (toInt_ofTest (or_congr ne_zero_iff_toInt ne_zero_iff_toInt))
  | and => exact congrArg some (toInt_ofTest (and_congr ne_zero_iff_toInt ne_zero_iff_toInt))

end BinaryOp

theorem UnaryOp.map_toInt_apply (op : UnaryOp) (a : Int16) :
    (op.apply a).map Int16.toInt = op.onIntegers a.toInt := by
  cases op with
  | neg => exact congrArg some (Int16.toInt_neg a)
  | abs =>
    have least : a = Int16.minValue ↔ a.toInt = -32768 := (Int16.toInt_inj (y := .minValue)).symm
    have negative : a < 0 ↔ a.toInt < 0 := Int16.lt_iff_toInt_lt
    have low := a.le_toInt
    have high := a.toInt_lt
    simp only [apply, onIntegers, least, negative]
    split
    · rfl
    · rw [Option.map_some]
      congr 1
      split
      · have opposite : (-a).toInt = -a.toInt := by
          rw [Int16.toInt_neg]
          exact wrap_eq_iff.mpr (by omega)
        omega
      · omega

/-- On words, every operator gives the word of what it gives on their integers, and has no value
exactly where it has none there. -/
theorem apply_agrees_onIntegers :
    (∀ (op : BinaryOp) (a b : Int16),
      (op.apply a b).map Int16.toInt = op.onIntegers a.toInt b.toInt) ∧
    (∀ (op : UnaryOp) (a : Int16), (op.apply a).map Int16.toInt = op.onIntegers a.toInt) ∧
    BinaryOp.div.apply (-32768) (-1) = some (-32768) ∧ BinaryOp.mod.apply (-32768) (-1) = some 0 :=
  ⟨BinaryOp.map_toInt_apply, UnaryOp.map_toInt_apply, rfl, rfl⟩

/-! ### Strength reduction -/

theorem toInt_trailingZeros {v : Int16} {k : Nat} (h : v.toInt = 2 ^ k) :
    (trailingZeros v).toInt = k := by
  obtain ⟨j, hj, rfl, hzeros⟩ := exponent_of_isPowerOfTwo (isPowerOfTwo_of_toInt h)
  rw [toInt_ofNat_two_pow hj] at h
  have powers : 2 ^ j = 2 ^ k := by exact_mod_cast h
  have same : j = k := (Nat.pow_right_inj (by decide)).mp powers
  rw [hzeros, Int16.toInt_ofNat_of_lt (by omega), same]

namespace BinaryOp

theorem reduceStrength_eq_some_iff {op shift : BinaryOp} {v count : Int16} :
    op.reduceStrength v = .ok (some (shift, count)) ↔
      (op = mul ∧ shift = shiftLeft ∨ op = div ∧ shift = shiftRight) ∧
        ∃ k : Nat, k ≤ 14 ∧ v.toInt = 2 ^ k ∧ count.toInt = k := by
  constructor
  · intro h
    obtain ⟨power, rfl, shifts⟩ := reduceStrength_eq_some h
    obtain ⟨k, hk⟩ := isPowerOfTwo_iff.mp power
    exact ⟨shifts, k, Nat.le_of_lt_succ (exponent_lt hk), hk, toInt_trailingZeros hk⟩
  · rintro ⟨shifts, k, -, hk, hcount⟩
    have power := isPowerOfTwo_of_toInt hk
    have zeros : trailingZeros v = count :=
      Int16.toInt_inj.mp ((toInt_trailingZeros hk).trans hcount.symm)
    obtain ⟨rfl, rfl⟩ | ⟨rfl, rfl⟩ := shifts
    · rw [(reduceStrength_of_isPowerOfTwo power).1, zeros]
    · rw [(reduceStrength_of_isPowerOfTwo power).2, zeros]

/-- The shift and the quotient differ by one where the dividend is negative and no multiple of the
divisor, and nowhere else. -/
theorem shiftRight_against_div (power : isPowerOfTwo v = true) (a : Int16) :
    ∃ floor quotient : Int16,
      shiftRight.apply a (trailingZeros v) = some floor ∧ div.apply a v = some quotient ∧
      floor.toInt = a.toInt.fdiv v.toInt ∧
      (shiftRight.apply a (trailingZeros v) = div.apply a v ↔ 0 ≤ a.toInt ∨ v.toInt ∣ a.toInt) ∧
      (¬ (0 ≤ a.toInt ∨ v.toInt ∣ a.toInt) → floor.toInt = quotient.toInt - 1) := by
  obtain ⟨floor, quotient, shifted, divided, below⟩ := apply_shiftRight_div power a
  obtain ⟨_, again, rounded⟩ := apply_shiftRight_trailingZeros power a
  cases shifted.symm.trans again
  obtain ⟨k, hk⟩ := isPowerOfTwo_iff.mp power
  have positive : 0 ≤ v.toInt := hk ▸ Int.pow_nonneg (by decide)
  simp only [isExactDividend_iff] at below
  refine ⟨floor, quotient, shifted, divided, ?_, ?_, fun inexact => ?_⟩
  · rw [rounded, Int.fdiv_eq_ediv_of_nonneg _ positive]
  · rw [shifted, divided, Option.some_inj, ← Int16.toInt_inj, below]
    split
    · rename_i even
      simp only [even]
    · rename_i inexact
      simp only [inexact, iff_false]
      omega
  · rw [below, if_neg inexact]

/-- Which operations are reduced, to which shift, and what the shift gives: the product itself, and
the quotient rounded down. No logarithm is asked for that there is not. -/
theorem reduceStrength_exact (op shift : BinaryOp) (v count : Int16) :
    (∃ reduced, op.reduceStrength v = .ok reduced) ∧
    (op.reduceStrength v = .ok (some (shift, count)) ↔
      (op = mul ∧ shift = shiftLeft ∨ op = div ∧ shift = shiftRight) ∧
        ∃ k : Nat, k ≤ 14 ∧ v.toInt = 2 ^ k ∧ count.toInt = k) ∧
    (op.reduceStrength v = .ok (some (shift, count)) → ∀ a : Int16,
      (op = mul → shift.apply a count = op.apply a v) ∧
      (op = div → ∃ floor quotient : Int16,
        shift.apply a count = some floor ∧ op.apply a v = some quotient ∧
        floor.toInt = a.toInt.fdiv v.toInt ∧
        (shift.apply a count = op.apply a v ↔ 0 ≤ a.toInt ∨ v.toInt ∣ a.toInt) ∧
        (¬ (0 ≤ a.toInt ∨ v.toInt ∣ a.toInt) → floor.toInt = quotient.toInt - 1))) := by
  refine ⟨⟨_, reduceStrength_eq op v⟩, reduceStrength_eq_some_iff, fun reduced a => ?_⟩
  obtain ⟨power, rfl, ⟨rfl, rfl⟩ | ⟨rfl, rfl⟩⟩ := reduceStrength_eq_some reduced
  · refine ⟨fun _ => apply_shiftLeft_trailingZeros power a, fun division => ?_⟩
    cases division
  · refine ⟨fun product => ?_, fun _ => shiftRight_against_div power a⟩
    cases product

theorem eighth_exact :
    mul.reduceStrength 8 = .ok (some (shiftLeft, 3)) ∧ shiftLeft.apply 5000 3 = mul.apply 5000 8 ∧
    div.reduceStrength 8 = .ok (some (shiftRight, 3)) ∧
    shiftRight.apply (-9) 3 ≠ div.apply (-9) 8 ∧
    ∃ floor quotient : Int16, shiftRight.apply (-9) 3 = some floor ∧
      div.apply (-9) 8 = some quotient ∧ floor.toInt = quotient.toInt - 1 := by
  have power : ∃ k : Nat, k ≤ 14 ∧ (8 : Int16).toInt = 2 ^ k ∧ (3 : Int16).toInt = k :=
    ⟨3, by decide, rfl, rfl⟩
  obtain ⟨-, multiplies, shifted⟩ := reduceStrength_exact mul shiftLeft 8 3
  obtain ⟨-, divides, rounded⟩ := reduceStrength_exact div shiftRight 8 3
  have product := multiplies.mpr ⟨.inl ⟨rfl, rfl⟩, power⟩
  have quotient := divides.mpr ⟨.inr ⟨rfl, rfl⟩, power⟩
  have inexact : ¬ (0 ≤ (-9 : Int16).toInt ∨ (8 : Int16).toInt ∣ (-9 : Int16).toInt) := by decide
  obtain ⟨f, q, hf, hq, -, same, below⟩ := (rounded quotient (-9)).2 rfl
  exact ⟨product, (shifted product 5000).1 rfl, quotient, mt same.mp inexact, f, q, hf, hq,
    below inexact⟩

end BinaryOp

end EventScript
