import EventScript.Arithmetic
import Mathlib.Algebra.Group.Int.Defs
import Mathlib.Algebra.Group.Nat.Defs

/-! Shifts as arithmetic. Shifting left multiplies by a power of two and wraps; shifting right
divides by one and rounds down, so it stands for a division, which rounds toward zero, exactly
where nothing is rounded or the dividend is not negative. -/
namespace EventScript

theorem smod_shiftCount (hk : k < 16) :
    (Int16.ofNat k).toBitVec.smod 16 = BitVec.ofNat 16 k := by
  have all : ∀ k : Fin 16, (Int16.ofNat k.val).toBitVec.smod 16 = BitVec.ofNat 16 k.val := by
    decide
  exact all ⟨k, hk⟩

theorem isShiftCount_ofNat (hk : k < 16) : isShiftCount (Int16.ofNat k) = true := by
  have all : ∀ k : Fin 16, isShiftCount (Int16.ofNat k.val) = true := by decide
  exact all ⟨k, hk⟩

theorem exists_ofNat_of_isShiftCount (hb : isShiftCount b = true) :
    ∃ k < 16, b = Int16.ofNat k := by
  rw [isShiftCount, Bool.and_eq_true, decide_eq_true_iff, decide_eq_true_iff] at hb
  refine ⟨b.toNatClampNeg, ?_, (Int16.ofNat_toNatClampNeg b hb.1).symm⟩
  have high : b.toInt < 16 := Int16.lt_iff_toInt_lt.mp hb.2
  rw [Int16.toNatClampNeg]
  omega

/-- What is cut off is what a shift on the width of the word moves out. -/
theorem toInt16_shiftLeft (a : Int16) (hb : isShiftCount b = true) :
    (a.toInt32 <<< b.toInt32).toInt16 = a <<< b := by
  have counts : ∀ k : Fin 16, ((Int16.ofNat k.val).toInt32.toBitVec.smod 32).toNat = k.val ∧
      ((Int16.ofNat k.val).toBitVec.smod 16).toNat = k.val := by
    decide
  obtain ⟨k, hk, rfl⟩ := exists_ofNat_of_isShiftCount hb
  obtain ⟨wide, narrow⟩ := counts ⟨k, hk⟩
  apply Int16.toBitVec_inj.mp
  rw [Int32.toBitVec_toInt16, Int32.toBitVec_shiftLeft, Int16.toBitVec_shiftLeft,
    BitVec.shiftLeft_eq', BitVec.shiftLeft_eq', wide, narrow,
    BitVec.signExtend_eq_setWidth_of_le _ (by decide), BitVec.setWidth_shiftLeft_of_le (by decide),
    Int16.toBitVec_toInt32]
  congr 1
  apply BitVec.eq_of_getLsbD_eq
  intro i hi
  simp [BitVec.getLsbD_signExtend, hi]
  omega

theorem apply_shiftLeft (a b : Int16) :
    BinaryOp.shiftLeft.apply a b = some (if isShiftCount b then a <<< b else 0) := by
  rw [BinaryOp.apply]
  split
  · rename_i inside
    rw [toInt16_shiftLeft a inside]
  · rfl

theorem shiftLeft_ofNat (a : Int16) (hk : k < 16) :
    a <<< Int16.ofNat k = a * Int16.ofNat (2 ^ k) := by
  apply Int16.toBitVec_inj.mp
  rw [Int16.toBitVec_shiftLeft, smod_shiftCount hk, BitVec.shiftLeft_eq', BitVec.toNat_ofNat,
    Nat.mod_eq_of_lt (Nat.lt_trans hk (by decide)), BitVec.shiftLeft_eq_mul_twoPow,
    Int16.toBitVec_mul]
  congr 1
  apply BitVec.eq_of_toNat_eq
  rw [BitVec.toNat_twoPow]
  rfl

theorem toInt_shiftRight_ofNat (a : Int16) (hk : k < 16) :
    (a >>> Int16.ofNat k).toInt = a.toInt / 2 ^ k := by
  have hmod : k % 2 ^ 16 = k := Nat.mod_eq_of_lt (Nat.lt_trans hk (by decide))
  rw [← Int16.toInt_toBitVec, Int16.toBitVec_shiftRight, smod_shiftCount hk,
    BitVec.toInt_sshiftRight', BitVec.toNat_ofNat, hmod, Int.shiftRight_eq_div_pow]
  simp

theorem trailingZeros_two_pow (hk : k < 15) :
    trailingZeros (Int16.ofNat (2 ^ k)) = Int16.ofNat k := by
  have all : ∀ k : Fin 15, trailingZeros (Int16.ofNat (2 ^ k.val)) = Int16.ofNat k.val := by decide
  exact all ⟨k, hk⟩

/-- The test for powers of two recognises them, and their trailing zeros count the exponent. -/
theorem exponent_of_isPowerOfTwo (h : isPowerOfTwo b = true) :
    ∃ k < 15, b = Int16.ofNat (2 ^ k) ∧ trailingZeros b = Int16.ofNat k := by
  unfold isPowerOfTwo at h
  rw [Bool.and_eq_true, decide_eq_true_iff, decide_eq_true_iff] at h
  obtain ⟨hpos, hand⟩ := h
  have hle : 0 ≤ b := Int16.le_of_lt hpos
  have hbits : b.toBitVec.toNat = b.toNatClampNeg := Int16.toNat_toBitVec_of_le hle
  have hne : b.toNatClampNeg ≠ 0 :=
    Nat.pos_iff_ne_zero.mp ((Int16.toNatClampNeg_pos_iff b).mpr hpos)
  have hpred : (b - 1).toBitVec.toNat = b.toNatClampNeg - 1 := by
    rw [Int16.toBitVec_sub, BitVec.toNat_sub_of_le, hbits]
    · rfl
    · rw [BitVec.le_def, hbits]
      exact Nat.one_le_iff_ne_zero.mpr hne
  have hzero : b.toNatClampNeg &&& (b.toNatClampNeg - 1) = 0 := by
    have := congrArg (fun x : Int16 => x.toBitVec.toNat) hand
    rwa [Int16.toBitVec_and, BitVec.toNat_and, hbits, hpred] at this
  obtain ⟨k, hk⟩ := (Nat.and_sub_one_eq_zero_iff_isPowerOfTwo hne).mp hzero
  have small : k < 15 := (Nat.pow_lt_pow_iff_right (by decide)).mp (hk ▸ b.toNatClampNeg_lt)
  have power : b = Int16.ofNat (2 ^ k) := by rw [← hk, Int16.ofNat_toNatClampNeg b hle]
  exact ⟨k, small, power, power ▸ trailingZeros_two_pow small⟩

theorem toInt_ofNat_two_pow (hk : k < 15) : (Int16.ofNat (2 ^ k)).toInt = 2 ^ k := by
  rw [Int16.toInt_ofNat_of_lt (Nat.pow_lt_pow_of_lt (by decide) hk)]
  simp

theorem exponent_lt {b : Int16} (h : b.toInt = 2 ^ k) : k < 15 := by
  have upper : (2 : Int) ^ k < 2 ^ 15 := h ▸ b.toInt_lt
  have upper' : 2 ^ k < 2 ^ 15 := by exact_mod_cast upper
  exact (Nat.pow_lt_pow_iff_right (by decide)).mp upper'

theorem isPowerOfTwo_of_toInt (h : b.toInt = 2 ^ k) : isPowerOfTwo b = true := by
  have all : ∀ k : Fin 15, isPowerOfTwo (Int16.ofNat (2 ^ k.val)) = true := by decide
  have hk := exponent_lt h
  have same : b = Int16.ofNat (2 ^ k) := Int16.toInt_inj.mp (by rw [h, toInt_ofNat_two_pow hk])
  rw [same]
  exact all ⟨k, hk⟩

theorem isPowerOfTwo_iff {b : Int16} : isPowerOfTwo b = true ↔ ∃ k : Nat, b.toInt = 2 ^ k := by
  constructor
  · intro h
    obtain ⟨k, hk, rfl, -⟩ := exponent_of_isPowerOfTwo h
    exact ⟨k, toInt_ofNat_two_pow hk⟩
  · rintro ⟨k, hk⟩
    exact isPowerOfTwo_of_toInt hk

theorem apply_shiftLeft_trailingZeros (h : isPowerOfTwo b = true) (a : Int16) :
    BinaryOp.shiftLeft.apply a (trailingZeros b) = BinaryOp.mul.apply a b := by
  obtain ⟨k, hk, rfl, hzeros⟩ := exponent_of_isPowerOfTwo h
  have hk' : k < 16 := by omega
  rw [apply_shiftLeft, hzeros, isShiftCount_ofNat hk', if_pos rfl, shiftLeft_ofNat a hk']
  rfl

theorem apply_shiftRight_trailingZeros (h : isPowerOfTwo b = true) (a : Int16) :
    ∃ q, BinaryOp.shiftRight.apply a (trailingZeros b) = some q ∧ q.toInt = a.toInt / b.toInt := by
  obtain ⟨k, hk, rfl, hzeros⟩ := exponent_of_isPowerOfTwo h
  have hk' : k < 16 := by omega
  refine ⟨a >>> Int16.ofNat k, ?_, ?_⟩
  · simp only [BinaryOp.apply, hzeros, isShiftCount_ofNat hk', if_true]
  · rw [toInt_shiftRight_ofNat a hk', toInt_ofNat_two_pow hk]

theorem apply_div_isPowerOfTwo (h : isPowerOfTwo b = true) (a : Int16) :
    ∃ q, BinaryOp.div.apply a b = some q ∧ q.toInt = a.toInt.tdiv b.toInt := by
  obtain ⟨k, hk, rfl, -⟩ := exponent_of_isPowerOfTwo h
  have hpos : (0 : Int) < 2 ^ k := Int.pow_pos (by decide)
  have hb := toInt_ofNat_two_pow hk
  have hzero : Int16.ofNat (2 ^ k) ≠ 0 := by
    intro h0
    rw [h0] at hb
    exact Int.ne_of_lt hpos hb
  have hneg : Int16.ofNat (2 ^ k) ≠ -1 := by
    intro h1
    rw [h1] at hb
    have : (-1 : Int) = 2 ^ k := hb
    omega
  refine ⟨a / Int16.ofNat (2 ^ k), by simp only [BinaryOp.apply, if_neg hzero], ?_⟩
  exact Int16.toInt_div_of_ne_right a _ hneg

/-- A dividend whose quotient the shift by the logarithm of the divisor gives. -/
def IsExactDividend (a b : Int16) : Prop :=
  0 ≤ a ∨ a % b = 0

instance (a b : Int16) : Decidable (IsExactDividend a b) :=
  inferInstanceAs (Decidable (_ ∨ _))

theorem isExactDividend_iff {a b : Int16} :
    IsExactDividend a b ↔ 0 ≤ a.toInt ∨ b.toInt ∣ a.toInt := by
  have zero : (0 : Int16).toInt = 0 := rfl
  rw [IsExactDividend, Int16.le_iff_toInt_le, ← Int16.toInt_inj, Int16.toInt_mod, zero,
    Int.dvd_iff_tmod_eq_zero]

/-- What a shift gives in place of a quotient: the quotient itself for an exact dividend, and one
less for any other. -/
theorem apply_shiftRight_div (h : isPowerOfTwo b = true) (a : Int16) :
    ∃ v w, BinaryOp.shiftRight.apply a (trailingZeros b) = some v ∧
      BinaryOp.div.apply a b = some w ∧
      v.toInt = if IsExactDividend a b then w.toInt else w.toInt - 1 := by
  obtain ⟨v, hv, floor⟩ := apply_shiftRight_trailingZeros h a
  obtain ⟨w, hw, trunc⟩ := apply_div_isPowerOfTwo h a
  refine ⟨v, w, hv, hw, ?_⟩
  have hpos : 0 < b.toInt := by
    obtain ⟨k, hk, rfl, -⟩ := exponent_of_isPowerOfTwo h
    rw [toInt_ofNat_two_pow hk]
    exact Int.pow_pos (by decide)
  rw [floor, trunc, Int.tdiv_eq_ediv, Int.sign_eq_one_of_pos hpos]
  simp only [isExactDividend_iff]
  split <;> omega

theorem apply_shiftRight_eq_div (h : isPowerOfTwo b = true) (ha : IsExactDividend a b) :
    BinaryOp.shiftRight.apply a (trailingZeros b) = BinaryOp.div.apply a b := by
  obtain ⟨v, w, hv, hw, hsame⟩ := apply_shiftRight_div h a
  rw [if_pos ha] at hsame
  rw [hv, hw, Int16.toInt_inj.mp hsame]

namespace BinaryOp

def shift? : BinaryOp → Option BinaryOp
  | mul => some shiftLeft
  | div => some shiftRight
  | _ => none

/-- The logarithm is only taken of powers of two, so there always is one. -/
theorem reduceStrength_eq (op : BinaryOp) (b : Int16) :
    op.reduceStrength b = .ok
      (if isPowerOfTwo b then op.shift?.map fun shift => (shift, trailingZeros b) else none) := by
  by_cases power : isPowerOfTwo b = true
  · cases op <;> simp only [reduceStrength, checkedLog2, power, if_true] <;> rfl
  · simp only [reduceStrength, power]
    rfl

theorem reduceStrength_ne_error {op : BinaryOp} : op.reduceStrength b ≠ .error fault := by
  intro h
  rw [reduceStrength_eq] at h
  cases h

theorem reduceStrength_eq_some {op : BinaryOp}
    (h : op.reduceStrength b = .ok (some (shift, count))) :
    isPowerOfTwo b = true ∧ count = trailingZeros b ∧
      (op = mul ∧ shift = shiftLeft ∨ op = div ∧ shift = shiftRight) := by
  rw [reduceStrength_eq] at h
  cases power : isPowerOfTwo b <;> cases op <;> simp_all [shift?]

theorem reduceStrength_of_isPowerOfTwo (power : isPowerOfTwo b = true) :
    mul.reduceStrength b = .ok (some (shiftLeft, trailingZeros b)) ∧
      div.reduceStrength b = .ok (some (shiftRight, trailingZeros b)) := by
  simp [reduceStrength_eq, power, shift?]

/-- A shift has the value of the operation it stands for. -/
theorem apply_of_reduceStrength {op : BinaryOp}
    (hs : op.reduceStrength b = .ok (some (shift, count)))
    (ha : op = div → IsExactDividend a b) : shift.apply a count = op.apply a b := by
  obtain ⟨hb, rfl, ⟨rfl, rfl⟩ | ⟨rfl, rfl⟩⟩ := reduceStrength_eq_some hs
  · exact apply_shiftLeft_trailingZeros hb a
  · exact apply_shiftRight_eq_div hb (ha rfl)

end BinaryOp

end EventScript
