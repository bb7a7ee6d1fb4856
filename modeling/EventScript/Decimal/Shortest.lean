/-! The shortest decimal that stands for a binary floating-point value: the fewest digits that
read back as the value and, among those, the nearest to it. -/
namespace EventScript

structure Decimal where
  digits : Nat
  exponent : Int
  deriving DecidableEq, Repr

namespace Decimal

/-- A positive value `mantissa · 2 ^ exponent`. The gap below it is half as wide as the gap above
where the mantissa is the least one of its binade. -/
structure Binary where
  mantissa : Nat
  exponent : Int
  narrowBelow : Bool
  deriving DecidableEq, Repr

def hiddenBit : Nat := 0x10000000000000

def Binary.ofBits (bits : Nat) : Binary :=
  let fraction : Nat := bits % hiddenBit
  let biased : Nat := bits / hiddenBit % 0x800
  if biased = 0 then ⟨fraction, -1074, false⟩
  else ⟨fraction + hiddenBit, (biased : Int) - 1075, fraction = 0 && biased > 1⟩

namespace Binary

def pointPosition (b : Binary) : Int :=
  let up := Nat.pow 2 b.exponent.toNat
  let down := Nat.pow 2 (-b.exponent).toNat
  let scaled := b.mantissa * Nat.pow 10 400 * up / down
  ((Nat.toDigits 10 scaled).length : Int) - 400

/-- The nearest multiple of `10 ^ exponent` that reads back as the value, if one does. A tie goes
to the even one. -/
def onGrid? (b : Binary) (exponent : Int) : Option Nat :=
  let binary := b.exponent - 2
  let up := Nat.pow 2 binary.toNat * Nat.pow 10 (-exponent).toNat
  let unit := Nat.pow 10 exponent.toNat * Nat.pow 2 (-binary).toNat
  let value := 4 * b.mantissa * up
  let low := (4 * b.mantissa - if b.narrowBelow then 1 else 2) * up
  let high := (4 * b.mantissa + 2) * up
  let closed := b.mantissa % 2 = 0
  let readsBack (candidate : Nat) : Bool :=
    let x := candidate * unit
    if closed then low ≤ x && x ≤ high else low < x && x < high
  let below := value / unit
  let twiceRest := 2 * (value % unit)
  let nearest :=
    if twiceRest < unit || twiceRest = unit && below % 2 = 0 then [below, below + 1]
    else [below + 1, below]
  nearest.find? readsBack

def shortest (b : Binary) : Decimal :=
  let point := b.pointPosition
  let tries := (List.range 17).filterMap fun (more : Nat) =>
    let exponent := point - (more + 1)
    (b.onGrid? exponent).map fun digits => (⟨digits, exponent⟩ : Decimal)
  tries.headD ⟨0, 0⟩

end Binary

end Decimal

end EventScript
