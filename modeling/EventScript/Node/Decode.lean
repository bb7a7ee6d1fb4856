import EventScript.Json.Reader
import EventScript.Node.Schema

/-! Reading a tree from its JSON text. A record is an object with its fields in any order, or an
array of its values in the order of the fields; fields that no one knows are passed over. At
most 127 brackets may be open at a time. -/
namespace EventScript

open Json

abbrev Slots : List Field → Type
  | [] => Unit
  | field :: fields => Option field.shape.Value × Slots fields

namespace Slots

def empty : (fields : List Field) → Slots fields
  | [] => ()
  | _ :: fields => (none, empty fields)

/-- Reads what follows a key: the value of the field of that name, which must be the first one,
or a value that is passed over. -/
def fill (steps : Nat) (read : (shape : Shape) → Reader shape.Value) (key : String) :
    (fields : List Field) → Slots fields → Reader (Slots fields)
  | [], (), s => do
      return ((), ← skipOpen steps [] (← scanColon s))
  | field :: fields, (slot, slots), s =>
      if field.name = key then
        match slot with
        | some _ => .error { cause := .duplicateField key, rest := s, placed := false }
        | none => do
            let (value, rest) ← read field.shape (← scanColon s)
            return ((some value, slots), rest)
      else do
        let (slots, rest) ← fill steps read key fields slots s
        return ((slot, slots), rest)

def complete (rest : List Char) :
    (fields : List Field) → Slots fields → Except Misread (Values fields)
  | [], () => .ok ()
  | field :: fields, (slot, slots) =>
      match slot <|> field.shape.absent? with
      | some value => do return (value, ← complete rest fields slots)
      | none => stopAt (.missingField field.name) rest

end Slots

def readMembers (skipSteps : Nat) (read : (shape : Shape) → Reader shape.Value)
    (fields : List Field) :
    (steps : Nat) → (first : Bool) → Slots fields → Reader (Values fields)
  | 0, _, _ => fun _ => stopAt .eofInObject []
  | steps + 1, first, slots => fun s => do
      match ← nextKey first s with
      | (false, rest) => return (← slots.complete rest fields, rest)
      | (true, rest) =>
          let (key, rest) ← scanString [] rest
          let (slots, rest) ← slots.fill skipSteps read key fields rest
          readMembers skipSteps read fields steps false slots rest

def readColumns (read : (shape : Shape) → Reader shape.Value) (record : Record) :
    (count : Nat) → (fields : List Field) → Reader (Values fields)
  | _, [] => fun s => .ok ((), s)
  | count, field :: fields => fun s => do
      match ← nextItem (count = 0) s with
      | (true, rest) =>
          let (value, rest) ← read field.shape rest
          let (values, rest) ← readColumns read record (count + 1) fields rest
          return ((value, values), rest)
      | (false, rest) =>
          match field.mayTrail, field.shape.absent? with
          | true, some value =>
              let (values, rest) ← readColumns read record (count + 1) fields rest
              return ((value, values), rest)
          | _, _ =>
              throw {
                cause := .wrongLength count record.title record.fields.length
                rest
                placed := false }

def readRecord (steps : Nat) (record : Record)
    (read? : Option ((shape : Shape) → Reader shape.Value)) :
    Reader (Values record.fields) := fun s =>
  match dropBlanks s with
  | '[' :: rest =>
      match read? with
      | none => stopAfter .recursionLimit ('[' :: rest)
      | some read => do
          let (values, rest) ←
            (readColumns read record 0 record.fields rest).mapError (Misread.settle afterArray)
          return (values, ← closeArray rest)
  | '\x7b' :: rest =>
      match read? with
      | none => stopAfter .recursionLimit ('\x7b' :: rest)
      | some read =>
          let members := readMembers steps read record.fields steps true (Slots.empty record.fields)
          (members rest).mapError (Misread.settle afterObject)
  | other => unexpected record.title other

def readOperator {ν : Type} (ofName? : String → Option ν) (names : List String) (open? : Bool) :
    Reader ν :=
  readVariant ofName? names (fun op rest => .ok (op, rest)) <|
    if open? then some fun op s => (readUnit s).map fun (_, rest) => (op, rest) else none

namespace Shape

def readWith (steps : Nat) (inner? : Option ((shape : Shape) → Reader shape.Value)) :
    (shape : Shape) → Reader shape.Value
  | word => readWord
  | int16 => readInt16
  | flag => readBool
  | text => readString
  | binaryOp => readOperator BinaryOp.ofName? (BinaryOp.all.map BinaryOp.name) inner?.isSome
  | unaryOp => readOperator UnaryOp.ofName? (UnaryOp.all.map UnaryOp.name) inner?.isSome
  | maybeWord => readOptional readWord
  | position => readPosition
  | maybePosition => readOptional readPosition
  | node => readNode
  | maybeNode => readOptional readNode
  | nodes => readList steps (inner?.map fun inner => inner node)
  | body =>
      readVariant Kind.ofName? (Kind.all.map Kind.name)
        (fun _ rest => .error
          { cause := .wrongType .unitVariant "struct variant", rest, placed := false })
        (inner?.map fun inner kind => inner (payload kind))
  | payload kind => fun s =>
      (readRecord steps kind.record inner? s).map fun (values, rest) => (kind.build values, rest)
where
  readPosition : Reader Position := fun s =>
    (readRecord steps Record.position inner? s).map fun ((line, column, ()), rest) =>
      (⟨line, column⟩, rest)
  readNode : Reader Node := fun s =>
    (readRecord steps Record.node inner? s).map fun ((unplaced, place, ()), rest) =>
      (unplaced.withPosition place, rest)

/-- The reader of a shape under a bound on the brackets that it may open inside each other. -/
def readWithin (steps : Nat) : (depth : Nat) → (shape : Shape) → Reader shape.Value
  | 0 => readWith steps none
  | depth + 1 => readWith steps (some (readWithin steps depth))

end Shape

def Node.depthLimit : Nat := 127

def Node.ofText (text : String) : Except ReadError Node :=
  readText (fun steps => Shape.readWithin steps depthLimit .node) text

end EventScript
