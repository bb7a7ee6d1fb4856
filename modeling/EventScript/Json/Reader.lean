import EventScript.Json.Skip

/-! Readers for the shapes that a JSON text can have. A reader takes the text that is left, and
gives what it read and what it leaves, or the first problem that it meets. Readers that go on
until a bracket closes are given a number of steps, for which the length of the text will do. -/
namespace EventScript.Json

abbrev Reader (α : Type) := List Char → Except Misread (α × List Char)

/-- What is wrong with a text where something of another type should begin. Words, numbers and
strings are read to their end first, so that a fault inside them comes first. -/
def unexpected {α : Type} (expected : String) (s : List Char) : Except Misread α :=
  let word (word rest : List Char) (found : Found) : Except Misread α := do
    stopAt (.wrongType found expected) (← scanWord word rest)
  let number (negative : Bool) (rest : List Char) : Except Misread α := do
    let (numeral, rest) ← Numeral.scan .eofInValue negative rest
    stopAt (.wrongType (← numeral.valueBefore rest).found expected) rest
  match s with
  | [] => stopAt .eofInValue []
  | 'n' :: rest => word ['u', 'l', 'l'] rest .null
  | 't' :: rest => word ['r', 'u', 'e'] rest (.boolean true)
  | 'f' :: rest => word ['a', 'l', 's', 'e'] rest (.boolean false)
  | '"' :: rest => do
      let (value, rest) ← scanString [] rest
      stopAt (.wrongType (.string value) expected) rest
  | '[' :: rest => stopAt (.wrongType .sequence expected) ('[' :: rest)
  | '\x7b' :: rest => stopAt (.wrongType .map expected) ('\x7b' :: rest)
  | '-' :: rest => number true rest
  | c :: rest =>
      if isDigit c then number false (c :: rest) else stopAfter .expectedValue (c :: rest)

def readInteger (expected : String) (least greatest : Int) : Reader Int := fun s =>
  let number (negative : Bool) (text : List Char) : Except Misread (Int × List Char) := do
    let (numeral, rest) ← Numeral.scan .eofInValue negative text
    match ← numeral.valueBefore rest with
    | .integer value =>
        if least ≤ value ∧ value ≤ greatest then return (value, rest)
        else stopAt (.outOfRange value expected) rest
    | other => stopAt (.wrongType other.found expected) rest
  match dropBlanks s with
  | '-' :: rest => number true rest
  | c :: rest =>
      if isDigit c then number false (c :: rest) else unexpected expected (c :: rest)
  | [] => stopAt .eofInValue []

def readWord : Reader UInt64 := fun s => do
  let (value, rest) ← readInteger "usize" 0 (UInt64.size - 1) s
  return (.ofNat value.toNat, rest)

def readInt16 : Reader Int16 := fun s => do
  let (value, rest) ← readInteger "i16" Int16.minValue.toInt Int16.maxValue.toInt s
  return (.ofInt value, rest)

def readBool : Reader Bool := fun s =>
  match dropBlanks s with
  | 't' :: rest => (scanWord ['r', 'u', 'e'] rest).map fun rest => (true, rest)
  | 'f' :: rest => (scanWord ['a', 'l', 's', 'e'] rest).map fun rest => (false, rest)
  | other => unexpected "a boolean" other

def readString : Reader String := fun s =>
  match dropBlanks s with
  | '"' :: rest => scanString [] rest
  | other => unexpected "a string" other

def readUnit : Reader Unit := fun s =>
  match dropBlanks s with
  | 'n' :: rest => (scanWord ['u', 'l', 'l'] rest).map fun rest => ((), rest)
  | other => unexpected "unit" other

def readOptional {α : Type} (read : Reader α) : Reader (Option α) := fun s =>
  match dropBlanks s with
  | 'n' :: rest => (scanWord ['u', 'l', 'l'] rest).map fun rest => (none, rest)
  | other => (read other).map fun (a, rest) => (some a, rest)

def nextItem (first : Bool) (s : List Char) : Except Misread (Bool × List Char) :=
  match dropBlanks s with
  | [] => stopAt .eofInList []
  | ']' :: rest => .ok (false, ']' :: rest)
  | c :: rest =>
      if first then .ok (true, c :: rest)
      else if c = ',' then
        match dropBlanks rest with
        | [] => stopAt .eofInValue []
        | ']' :: rest => stopAfter .trailingComma (']' :: rest)
        | rest => .ok (true, rest)
      else stopAfter .expectedListEnd (c :: rest)

def closeArray (s : List Char) : Except Misread (List Char) :=
  match dropBlanks s with
  | [] => stopAt .eofInList []
  | ']' :: rest => .ok rest
  | ',' :: rest =>
      match dropBlanks rest with
      | ']' :: rest => stopAfter .trailingComma (']' :: rest)
      | other => stopAfter .trailingCharacters other
  | other => stopAfter .trailingCharacters other

def afterArray (s : List Char) : List Char :=
  match dropBlanks s with
  | ']' :: rest => rest
  | ',' :: rest => dropBlanks rest
  | other => other

def readItems {α : Type} (read : Reader α) : (steps : Nat) → (first : Bool) → Reader (List α)
  | 0, _ => fun _ => stopAt .eofInList []
  | steps + 1, first => fun s => do
      match ← nextItem first s with
      | (false, rest) => return ([], ← closeArray rest)
      | (true, rest) =>
          let (item, rest) ← read rest
          let (items, rest) ← readItems read steps false rest
          return (item :: items, rest)

/-- A list of values. There is no reader for its items where no further bracket may be opened. -/
def readList {α : Type} (steps : Nat) (item? : Option (Reader α)) : Reader (List α) := fun s =>
  match dropBlanks s with
  | '[' :: rest =>
      match item? with
      | none => stopAfter .recursionLimit ('[' :: rest)
      | some item => readItems item steps true rest
  | other => unexpected "a sequence" other

def nextKey (first : Bool) (s : List Char) : Except Misread (Bool × List Char) :=
  match dropBlanks s with
  | [] => stopAt .eofInObject []
  | '\x7d' :: rest => .ok (false, rest)
  | c :: rest =>
      if first then
        if c = '"' then .ok (true, rest) else stopAfter .keyNotString (c :: rest)
      else if c = ',' then
        match dropBlanks rest with
        | [] => stopAt .eofInValue []
        | '"' :: rest => .ok (true, rest)
        | '\x7d' :: rest => stopAfter .trailingComma ('\x7d' :: rest)
        | other => stopAfter .keyNotString other
      else stopAfter .expectedObjectEnd (c :: rest)

def afterObject (s : List Char) : List Char :=
  match dropBlanks s with
  | '\x7d' :: rest => rest
  | other => other

def readVariant {ν α : Type} (ofName? : String → Option ν) (names : List String)
    (plain : ν → Reader α) (content? : Option (ν → Reader α)) : Reader α := fun s =>
  let named (rest : List Char) : Except Misread (ν × List Char) := do
    let (name, rest) ← scanString [] rest
    match ofName? name with
    | some variant => return (variant, rest)
    | none => stopAt (.unknownVariant name names) rest
  match dropBlanks s with
  | [] => stopAt .eofInValue []
  | '"' :: rest => do
      let (variant, rest) ← named rest
      plain variant rest
  | '\x7b' :: rest =>
      match content? with
      | none => stopAfter .recursionLimit ('\x7b' :: rest)
      | some content =>
          match dropBlanks rest with
          | [] => stopAt .eofInObject []
          | '\x7d' :: rest => stopAfter .expectedValue ('\x7d' :: rest)
          | '"' :: rest => do
              let (variant, rest) ← named rest
              let rest ← scanColon rest
              let (value, rest) ← content variant rest
              match dropBlanks rest with
              | [] => stopAt .eofInObject []
              | '\x7d' :: rest => return (value, rest)
              | other => stopAt .expectedValue other
          | other => stopAfter .keyNotString other
  | other => stopAfter .expectedValue other

/-- One value, and blanks at most after it. The reader is given one step more than there are
characters. -/
def readWhole {α : Type} (read : (steps : Nat) → Reader α) (s : List Char) : Except Misread α := do
  let (value, rest) ← read (s.length + 1) s
  match dropBlanks rest with
  | [] => return value
  | other => stopAfter .trailingCharacters other

def readText {α : Type} (read : (steps : Nat) → Reader α) (text : String) : Except ReadError α :=
  (readWhole read text.toList).mapError (Misread.locate text)

end EventScript.Json
