import EventScript.Text.Quoted

/-! Why a text is not what its reader expects. The causes fall into three categories: the text
ends early, it is not JSON, or it is JSON of the wrong shape. -/
namespace EventScript

inductive Found where
  | null
  | boolean (value : Bool)
  | integer (value : Int)
  | float (text : String)
  | string (value : String)
  | sequence
  | map
  | unitVariant
  deriving DecidableEq, Repr

def Found.text : Found → String
  | null => "null"
  | boolean value => "boolean `" ++ (if value then "true" else "false") ++ "`"
  | integer value => "integer `" ++ toString value ++ "`"
  | float text => "floating point `" ++ text ++ "`"
  | string value => "string " ++ Text.quoted value
  | sequence => "sequence"
  | map => "map"
  | unitVariant => "unit variant"

inductive DecodeError where
  | eofInString | eofInList | eofInObject | eofInValue
  | expectedValue | expectedIdent | expectedColon | expectedListEnd | expectedObjectEnd
  | keyNotString | trailingComma | trailingCharacters
  | invalidNumber | numberOutOfRange
  | invalidEscape | loneSurrogate | unfinishedSurrogate | controlCharacter
  | recursionLimit
  | wrongType (found : Found) (expected : String)
  | outOfRange (value : Int) (expected : String)
  | wrongLength (count : Nat) (title : String) (fields : Nat)
  | missingField (name : String)
  | duplicateField (name : String)
  | unknownVariant (name : String) (known : List String)
  deriving DecidableEq, Repr

namespace DecodeError

inductive Category where
  | eof | syntactic | data
  deriving DecidableEq, Repr

def category : DecodeError → Category
  | eofInString | eofInList | eofInObject | eofInValue => .eof
  | wrongType .. | outOfRange .. | wrongLength .. | missingField _ | duplicateField _
  | unknownVariant .. => .data
  | _ => .syntactic

def inTicks (name : String) : String := "`" ++ name ++ "`"

def alternatives : List String → String
  | [] => "there are no variants"
  | [a] => inTicks a
  | [a, b] => inTicks a ++ " or " ++ inTicks b
  | names => "one of " ++ ", ".intercalate (names.map inTicks)

def message : DecodeError → String
  | eofInString => "EOF while parsing a string"
  | eofInList => "EOF while parsing a list"
  | eofInObject => "EOF while parsing an object"
  | eofInValue => "EOF while parsing a value"
  | expectedValue => "expected value"
  | expectedIdent => "expected ident"
  | expectedColon => "expected `:`"
  | expectedListEnd => "expected `,` or `]`"
  | expectedObjectEnd => "expected `,` or `\x7d`"
  | keyNotString => "key must be a string"
  | trailingComma => "trailing comma"
  | trailingCharacters => "trailing characters"
  | invalidNumber => "invalid number"
  | numberOutOfRange => "number out of range"
  | invalidEscape => "invalid escape"
  | loneSurrogate => "lone leading surrogate in hex escape"
  | unfinishedSurrogate => "unexpected end of hex escape"
  | controlCharacter => "control character (\\u0000-\\u001F) found while parsing a string"
  | recursionLimit => "recursion limit exceeded"
  | wrongType found expected => "invalid type: " ++ found.text ++ ", expected " ++ expected
  | outOfRange value expected =>
      "invalid value: " ++ (Found.integer value).text ++ ", expected " ++ expected
  | wrongLength count title fields =>
      "invalid length " ++ toString count ++ ", expected " ++ title ++ " with " ++
        toString fields ++ (if fields = 1 then " element" else " elements")
  | missingField name => "missing field " ++ inTicks name
  | duplicateField name => "duplicate field " ++ inTicks name
  | unknownVariant name known =>
      "unknown variant " ++ inTicks name ++ ", expected " ++ alternatives known

end DecodeError

structure ReadError where
  cause : DecodeError
  line : Nat
  column : Nat
  deriving DecidableEq, Repr

namespace ReadError

def message (e : ReadError) : String := e.cause.message

def text (e : ReadError) : String :=
  e.message ++ " at line " ++ toString e.line ++ " column " ++ toString e.column

end ReadError

namespace Json

/-- A problem, the text that was left when it was met, and how many bytes of that had been looked
at. A problem with a record as a whole has its place after the end of the record has been tried. -/
structure Misread where
  cause : DecodeError
  rest : List Char
  ahead : Nat := 0
  placed : Bool := true
  deriving DecidableEq, Repr

namespace Misread

/-- Columns are counted in bytes. -/
def locate (text : String) (e : Misread) : ReadError :=
  let bytes := text.toUTF8.toList
  let read := bytes.take (bytes.length - (String.ofList e.rest).utf8ByteSize + e.ahead)
  { cause := e.cause
    line := 1 + read.count 10
    column := (read.reverse.takeWhile (· ≠ 10)).length }

def settle (close : List Char → List Char) (e : Misread) : Misread :=
  if e.placed then e else { e with rest := close e.rest, placed := true }

end Misread

abbrev stopAt {α : Type} (cause : DecodeError) (rest : List Char) : Except Misread α :=
  .error { cause, rest }

/-- The first byte of what is left was looked at as well, if there is one. -/
abbrev stopAfter {α : Type} (cause : DecodeError) (rest : List Char) : Except Misread α :=
  .error { cause, rest, ahead := 1 }

end Json

end EventScript
