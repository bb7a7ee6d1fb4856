import EventScript.Decimal.Shortest
import EventScript.Json.Scan

/-! Numbers: how they are spelled, and what they stand for. Integers that fit sixty-four bits are
exact; every other number is a double. -/
namespace EventScript.Json

structure Numeral where
  negative : Bool
  whole : List Char
  fraction : List Char := []
  power : Option (Bool × List Char) := none
  deriving DecidableEq, Repr

namespace Numeral

def scanDigits (ended : DecodeError) (s : List Char) :
    Except Misread (List Char × List Char) :=
  match s with
  | [] => stopAt ended []
  | c :: rest =>
      if isDigit c then .ok (s.takeWhile isDigit, s.dropWhile isDigit)
      else stopAfter .invalidNumber (c :: rest)

def scanWhole (ended : DecodeError) (s : List Char) :
    Except Misread (List Char × List Char) :=
  match s with
  | '0' :: c :: rest =>
      if isDigit c then stopAfter .invalidNumber (c :: rest) else .ok (['0'], c :: rest)
  | s => scanDigits ended s

def scanFraction (ended : DecodeError) (s : List Char) :
    Except Misread (List Char × List Char) :=
  match s with
  | '.' :: rest => scanDigits ended rest
  | s => .ok ([], s)

def scanPower (ended : DecodeError) (s : List Char) :
    Except Misread (Option (Bool × List Char) × List Char) :=
  let signed (rest : List Char) := do
    match rest with
    | '-' :: rest =>
        let (digits, rest) ← scanDigits ended rest
        return (some (true, digits), rest)
    | '+' :: rest =>
        let (digits, rest) ← scanDigits ended rest
        return (some (false, digits), rest)
    | rest =>
        let (digits, rest) ← scanDigits ended rest
        return (some (false, digits), rest)
  match s with
  | 'e' :: rest | 'E' :: rest => signed rest
  | s => .ok (none, s)

def scan (ended : DecodeError) (negative : Bool) (s : List Char) :
    Except Misread (Numeral × List Char) := do
  let (whole, s) ← scanWhole ended s
  let (fraction, s) ← scanFraction ended s
  let (power, s) ← scanPower ended s
  return (⟨negative, whole, fraction, power⟩, s)

end Numeral

inductive Number where
  | integer (value : Int)
  | float (value : Float)

def digitValue (c : Char) : Nat :=
  c.toNat - '0'.toNat

def digitsValue (digits : List Char) : Nat :=
  digits.foldl (fun n c => n * 10 + digitValue c) 0

/-- Takes digits into a significand as long as it fits sixty-four bits; gives the digits that
found no room. -/
def absorb (significand : Nat) : List Char → Nat × List Char
  | [] => (significand, [])
  | c :: digits =>
      let next := significand * 10 + digitValue c
      if next < UInt64.size then absorb next digits else (significand, c :: digits)

def powerOfTen (exponent : Nat) : Float :=
  Float.ofScientific 1 false exponent

def scaleDown (x : Float) (exponent : Nat) : Float :=
  if exponent ≤ 308 then x / powerOfTen exponent
  else if x == 0 then x
  else scaleDown (x / powerOfTen 308) (exponent - 308)
termination_by exponent

/-- The double for a significand and a power of ten, with one rounding for each step. -/
def scaled (negative : Bool) (significand : Nat) (exponent : Int) : Except DecodeError Number :=
  let x := significand.toUInt64.toFloat
  let signed (x : Float) : Number := .float (if negative then -x else x)
  if exponent < 0 then .ok (signed (scaleDown x (-exponent).toNat))
  else if x == 0 then .ok (signed x)
  else if 308 < exponent then .error .numberOutOfRange
  else
    let x := x * powerOfTen exponent.toNat
    if x.isInf then .error .numberOutOfRange else .ok (signed x)

def signBit : Nat := 0x8000000000000000

def Numeral.value (n : Numeral) : Except DecodeError Number :=
  let (whole, lost) := absorb 0 n.whole
  match n.fraction, n.power, lost with
  | [], none, [] =>
      if n.negative then
        if whole = 0 ∨ signBit < whole then .ok (.float (-whole.toUInt64.toFloat))
        else .ok (.integer (-whole))
      else .ok (.integer whole)
  | fraction, power, lost =>
      let (significand, unread) := absorb whole fraction
      let places := fraction.length - unread.length
      let exponent : Int :=
        match power with
        | none => 0
        | some (true, digits) => -digitsValue digits
        | some (false, digits) => digitsValue digits
      scaled n.negative significand (lost.length - places + exponent)

def exponentRest (exponent : Nat) : List Char → List Char
  | [] => []
  | c :: digits =>
      let next := exponent * 10 + digitValue c
      if next ≤ 0x7fffffff then exponentRest next digits else digits

/-- The value of a number with this text after it. One that is out of range is not read any further
than to the exponent that shows it. -/
def Numeral.valueBefore (n : Numeral) (rest : List Char) : Except Misread Number :=
  let unread :=
    match n.power with
    | some (false, digits) => exponentRest 0 digits
    | _ => []
  n.value.mapError fun cause => { cause, rest := unread ++ rest }

/-- A double as messages show it: positional with at least one place after the point while at
most sixteen digits stand before it and at most four zeros after it, else with a signed
exponent. -/
def floatText (x : Float) : String :=
  let bits := x.toBits.toNat
  let sign := if signBit ≤ bits then "-" else ""
  let bits := bits % signBit
  if bits = 0 then sign ++ "0.0"
  else
    let shortest := (Decimal.Binary.ofBits bits).shortest
    let written := Nat.toDigits 10 shortest.digits
    let digits := (written.reverse.dropWhile (· = '0')).reverse
    let point : Int := written.length + shortest.exponent
    let zeros (n : Int) := List.replicate n.toNat '0'
    let body :=
      if digits.length ≤ point ∧ point ≤ 16 then
        digits ++ zeros (point - digits.length) ++ ['.', '0']
      else if 0 < point ∧ point ≤ 16 then
        digits.take point.toNat ++ ['.'] ++ digits.drop point.toNat
      else if -5 < point ∧ point ≤ 0 then ['0', '.'] ++ zeros (-point) ++ digits
      else
        let more := digits.drop 1
        digits.take 1 ++ (if more = [] then [] else '.' :: more) ++
          (if 0 < point then ['e', '+'] else ['e']) ++ (toString (point - 1)).toList
    sign ++ String.ofList body

def Number.found : Number → Found
  | integer value => .integer value
  | float value => .float (floatText value)

end EventScript.Json
