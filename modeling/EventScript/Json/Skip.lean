import EventScript.Json.Number

/-! Passing over a value that nobody wants. It has to be JSON, but it may be nested as deep as it
likes: the brackets that are open are kept in a list. Every step passes a character at least, so
as many steps as the text has characters are enough. -/
namespace EventScript.Json

inductive Bracket where
  | list | object
  deriving DecidableEq, Repr

def skipNumber (negative : Bool) (s : List Char) : Except Misread (List Char) := do
  let (_, s) ← Numeral.scan .invalidNumber negative s
  return s

def skipKey (s : List Char) : Except Misread (List Char) :=
  match dropBlanks s with
  | [] => stopAt .eofInObject []
  | '"' :: rest => skipString rest >>= scanColon
  | other => stopAfter .keyNotString other

mutual

/-- Passes over a value, and then over all that is left inside the open brackets. -/
def skipOpen : Nat → List Bracket → List Char → Except Misread (List Char)
  | 0, _, _ => stopAt .eofInValue []
  | fuel + 1, brackets, s =>
      match dropBlanks s with
      | [] => stopAt .eofInValue []
      | 'n' :: rest => scanWord ['u', 'l', 'l'] rest >>= closeOpen fuel brackets
      | 't' :: rest => scanWord ['r', 'u', 'e'] rest >>= closeOpen fuel brackets
      | 'f' :: rest => scanWord ['a', 'l', 's', 'e'] rest >>= closeOpen fuel brackets
      | '"' :: rest => skipString rest >>= closeOpen fuel brackets
      | '-' :: rest => skipNumber true rest >>= closeOpen fuel brackets
      | '[' :: rest =>
          match dropBlanks rest with
          | [] => stopAt .eofInList []
          | ']' :: rest => closeOpen fuel brackets rest
          | rest => skipOpen fuel (.list :: brackets) rest
      | '\x7b' :: rest =>
          match dropBlanks rest with
          | [] => stopAt .eofInObject []
          | '\x7d' :: rest => closeOpen fuel brackets rest
          | rest => skipKey rest >>= skipOpen fuel (.object :: brackets)
      | c :: rest =>
          if isDigit c then skipNumber false (c :: rest) >>= closeOpen fuel brackets
          else stopAfter .expectedValue (c :: rest)

def closeOpen : Nat → List Bracket → List Char → Except Misread (List Char)
  | _, [], s => .ok s
  | 0, _ :: _, _ => stopAt .eofInValue []
  | fuel + 1, .list :: brackets, s =>
      match dropBlanks s with
      | [] => stopAt .eofInList []
      | ']' :: rest => closeOpen fuel brackets rest
      | ',' :: rest => skipOpen fuel (.list :: brackets) rest
      | other => stopAfter .expectedListEnd other
  | fuel + 1, .object :: brackets, s =>
      match dropBlanks s with
      | [] => stopAt .eofInObject []
      | '\x7d' :: rest => closeOpen fuel brackets rest
      | ',' :: rest => skipKey rest >>= skipOpen fuel (.object :: brackets)
      | other => stopAfter .expectedObjectEnd other

end

end EventScript.Json
