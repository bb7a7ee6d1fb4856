import EventScript.Fault

/-! Arithmetic on the machine word: sixteen bits, two's complement, wrapping. A shift by a count
outside `0 .. 15` moves every bit out, so it leaves zero or the sign. -/
namespace EventScript

def ofTest (holds : Bool) : Int16 :=
  if holds then 1 else 0

def isShiftCount (count : Int16) : Bool :=
  0 ≤ count && count < 16

/-- Only division and remainder by zero have no value. A shift to the left is made on twice the
width and cut back. -/
def BinaryOp.apply (op : BinaryOp) (a b : Int16) : Option Int16 :=
  match op with
  | .shiftLeft => some (if isShiftCount b then (a.toInt32 <<< b.toInt32).toInt16 else 0)
  | .shiftRight => some (if isShiftCount b then a >>> b else a >>> 15)
  | .add => some (a + b)
  | .sub => some (a - b)
  | .mul => some (a * b)
  | .div => if b = 0 then none else some (a / b)
  | .mod => if b = 0 then none else some (a % b)
  | .eq => some (ofTest (a = b))
  | .ne => some (ofTest (a ≠ b))
  | .gt => some (ofTest (b < a))
  | .ge => some (ofTest (b ≤ a))
  | .lt => some (ofTest (a < b))
  | .le => some (ofTest (a ≤ b))
  | .or => some (ofTest (a ≠ 0 ∨ b ≠ 0))
  | .and => some (ofTest (a ≠ 0 ∧ b ≠ 0))

def UnaryOp.apply (op : UnaryOp) (a : Int16) : Option Int16 :=
  match op with
  | .neg => some (-a)
  | .abs => if a = Int16.minValue then none else some (if a < 0 then -a else a)

def isPowerOfTwo (value : Int16) : Bool :=
  0 < value && value &&& (value - 1) = 0

def trailingZeros (value : Int16) : Int16 :=
  .ofBitVec value.toBitVec.ctz

def checkedLog2 (value : Int16) : Except Fault Int16 :=
  if isPowerOfTwo value then .ok (trailingZeros value) else .error .notPowerOfTwo

def BinaryOp.reduceStrength (op : BinaryOp) (value : Int16) :
    Except Fault (Option (BinaryOp × Int16)) := do
  if isPowerOfTwo value then
    match op with
    | .mul => return some (.shiftLeft, ← checkedLog2 value)
    | .div => return some (.shiftRight, ← checkedLog2 value)
    | _ => return none
  else return none

end EventScript
