/-! Lines of a text. A line ends at a line feed, a carriage return right before it belongs to the
ending, and a text that ends in a line feed has no further line. -/
namespace EventScript.Text

def dropLines (count : Nat) (s : List Char) : List Char :=
  match s, count with
  | s, 0 => s
  | [], _ + 1 => []
  | '\n' :: rest, count + 1 => dropLines count rest
  | _ :: rest, count + 1 => dropLines (count + 1) rest

def firstLine? (s : List Char) : Option (List Char) :=
  if s = [] then none
  else
    let line := s.takeWhile (· ≠ '\n')
    if line.length < s.length ∧ line.getLast? = some '\r' then some line.dropLast else some line

/-- The line with the given number, counted from zero. -/
def line? (number : Nat) (s : List Char) : Option (List Char) :=
  firstLine? (dropLines number s)

end EventScript.Text
