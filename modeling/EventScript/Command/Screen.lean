import EventScript.Optimizer.Rejection
import EventScript.Text.Line

/-! What the command line shows: styled text, and a rejected script with the line that gave rise
to it and a caret under the column. -/
namespace EventScript

def paddingLimit : Nat := 0x7fffffffffffffff

/-- Whether text is styled, and the longest padding that there is memory for. -/
structure Screen where
  color : Bool := false
  room : Nat := paddingLimit
  room_le : room ≤ paddingLimit := by decide

inductive Style where
  | note | error | success | caret
  deriving DecidableEq, Repr

namespace Style

def code : Style → String
  | note => "\x1b[36m"
  | error => "\x1b[31m\x1b[1m"
  | success => "\x1b[32m\x1b[1m"
  | caret => "\x1b[32m"

def paint (style : Style) (screen : Screen) (text : String) : String :=
  if screen.color then style.code ++ text ++ "\x1b[0m" else text

end Style

def blanks (count : Nat) : String :=
  String.ofList (List.replicate count ' ')

def quotedLine (number : Nat) (line : List Char) : String :=
  let digits := toString number
  " " ++ blanks (4 - digits.length) ++ digits ++ " | " ++ String.ofList line

def caretLine (screen : Screen) (column : Nat) : Except Fault String :=
  let padding := column - 1
  if padding ≤ screen.room then .ok ("      | " ++ blanks padding ++ "^")
  else if padding ≤ paddingLimit then .error (.outOfMemory padding)
  else .error .paddingOverflow

/-- The text for a rejected script, and the fault that cut it short, if one did. -/
def Rejection.screenText (rejection : Rejection) (source : Option String) (screen : Screen) :
    String × Option Fault :=
  let summary := Style.error.paint screen rejection.report.summary ++ "\n"
  match rejection.position, source with
  | some p, some source =>
      match Text.line? (p.line.toNat - 1) source.toList with
      | none => (summary, none)
      | some line =>
          let quoted := summary ++ quotedLine p.line.toNat line ++ "\n"
          match caretLine screen p.column.toNat with
          | .ok caret => (quoted ++ Style.caret.paint screen caret ++ "\n", none)
          | .error fault => (quoted, some fault)
  | _, _ => (summary, none)

end EventScript
