import EventScript.Json.Error

/-! The small parts of a JSON text: blanks, words and strings. Every scanner takes the text that
is left and gives what it leaves. -/
namespace EventScript.Json

def isBlank (c : Char) : Bool :=
  c = ' ' || c = '\t' || c = '\n' || c = '\r'

def dropBlanks (s : List Char) : List Char :=
  s.dropWhile isBlank

def isDigit (c : Char) : Bool :=
  '0' ≤ c && c ≤ '9'

def scanWord : List Char → List Char → Except Misread (List Char)
  | [], s => .ok s
  | _ :: _, [] => stopAt .eofInValue []
  | c :: word, d :: s => if c = d then scanWord word s else stopAfter .expectedIdent (d :: s)

def hexDigit? (c : Char) : Option Nat :=
  if '0' ≤ c && c ≤ '9' then some (c.toNat - '0'.toNat)
  else if 'a' ≤ c && c ≤ 'f' then some (c.toNat - 'a'.toNat + 10)
  else if 'A' ≤ c && c ≤ 'F' then some (c.toNat - 'A'.toNat + 10)
  else none

def codeUnit? (a b c d : Char) : Option Nat := do
  return (((← hexDigit? a) * 16 + (← hexDigit? b)) * 16 + (← hexDigit? c)) * 16 + (← hexDigit? d)

/-- Four bytes are taken for an escape before they are looked at, so one that is cut short counts
as the end of the text even if what is there is no hexadecimal digit. -/
def badUnit (rest : List Char) : Misread :=
  if (String.ofList rest).utf8ByteSize < 4 then { cause := .eofInString, rest := [] }
  else { cause := .invalidEscape, rest, ahead := 4 }

def isLeading (unit : Nat) : Bool := 0xd800 ≤ unit && unit ≤ 0xdbff

def isTrailing (unit : Nat) : Bool := 0xdc00 ≤ unit && unit ≤ 0xdfff

def pairChar (leading trailing : Nat) : Char :=
  Char.ofNat ((leading - 0xd800) * 0x400 + (trailing - 0xdc00) + 0x10000)

def escape? : Char → Option Char
  | '"' => some '"'
  | '\\' => some '\\'
  | '/' => some '/'
  | 'b' => some '\x08'
  | 'f' => some '\x0c'
  | 'n' => some '\n'
  | 'r' => some '\r'
  | 't' => some '\t'
  | _ => none

def scanString (read : List Char) : List Char → Except Misread (String × List Char)
  | [] | ['\\'] => stopAt .eofInString []
  | '"' :: rest => .ok (String.ofList read.reverse, rest)
  | '\\' :: 'u' :: a :: b :: c :: d :: rest =>
      match codeUnit? a b c d with
      | none => .error (badUnit (a :: b :: c :: d :: rest))
      | some unit =>
          if isTrailing unit then stopAt .loneSurrogate rest
          else if isLeading unit then
            match rest with
            | [] | ['\\'] => stopAt .eofInString []
            | '\\' :: 'u' :: a :: b :: c :: d :: rest =>
                match codeUnit? a b c d with
                | none => .error (badUnit (a :: b :: c :: d :: rest))
                | some trailing =>
                    if isTrailing trailing then
                      scanString (pairChar unit trailing :: read) rest
                    else stopAt .loneSurrogate rest
            | '\\' :: 'u' :: short => .error (badUnit short)
            | '\\' :: rest => stopAfter .unfinishedSurrogate rest
            | rest => stopAfter .unfinishedSurrogate rest
          else scanString (Char.ofNat unit :: read) rest
  | '\\' :: 'u' :: short => .error (badUnit short)
  | '\\' :: c :: rest =>
      match escape? c with
      | some c => scanString (c :: read) rest
      | none => stopAfter .invalidEscape (c :: rest)
  | c :: rest =>
      if c.toNat < 0x20 then stopAfter .controlCharacter (c :: rest)
      else scanString (c :: read) rest

/-- Passes over the rest of a string that nobody wants; surrogates need not be paired. -/
def skipString : List Char → Except Misread (List Char)
  | [] | ['\\'] => stopAt .eofInString []
  | '"' :: rest => .ok rest
  | '\\' :: 'u' :: a :: b :: c :: d :: rest =>
      if (codeUnit? a b c d).isSome then skipString rest
      else .error (badUnit (a :: b :: c :: d :: rest))
  | '\\' :: 'u' :: short => .error (badUnit short)
  | '\\' :: c :: rest =>
      if (escape? c).isSome then skipString rest else stopAfter .invalidEscape (c :: rest)
  | c :: rest =>
      if c.toNat < 0x20 then stopAt .controlCharacter (c :: rest) else skipString rest

def scanColon (s : List Char) : Except Misread (List Char) :=
  match dropBlanks s with
  | [] => stopAt .eofInObject []
  | ':' :: rest => .ok rest
  | other => stopAfter .expectedColon other

end EventScript.Json
