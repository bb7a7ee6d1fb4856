import EventScript.Command.Screen
import Mathlib.Data.List.Basic

/-! A rejected script is shown with the line of its position and a caret. The line is the one of
that number, counted over the line feeds. The caret stands under the column as long as the number of
the line has four digits at most; every further digit moves the line, but not the caret. -/
namespace EventScript

namespace Text

def dropReturn (line : List Char) : List Char :=
  if line.getLast? = some '\r' then line.dropLast else line

/-- The lines of a text: what stands before each line feed, and what stands after the last one, if
anything does. -/
def lines (s : List Char) : List (List Char) :=
  let pieces := s.splitOn '\n'
  pieces.dropLast.map dropReturn ++ pieces.getLast?.toList.filter (· ≠ [])

theorem lines_of_not_mem {s : List Char} (h : '\n' ∉ s) : lines s = if s = [] then [] else [s] := by
  have whole : s.splitOn '\n' = [s] := List.splitOn_eq_singleton h
  by_cases empty : s = [] <;> simp [lines, whole, empty]

theorem lines_append_feed {line : List Char} (h : '\n' ∉ line) (rest : List Char) :
    lines (line ++ '\n' :: rest) = dropReturn line :: lines rest := by
  have more : rest.splitOn '\n' ≠ [] := List.splitOn_ne_nil _ _
  simp only [lines, List.splitOn_append_cons_self_of_not_mem h, List.dropLast_cons_of_ne_nil more,
    List.getLast?_cons_of_ne_nil more, List.map_cons, List.cons_append]

theorem dropLines_of_not_mem {s : List Char} (h : '\n' ∉ s) (count : Nat) :
    dropLines (count + 1) s = [] := by
  induction s with
  | nil => rfl
  | cons c s ih =>
    rw [List.mem_cons, not_or] at h
    rw [dropLines, ih h.2]
    exact fun same => h.1 same.symm

theorem dropLines_append_feed {line : List Char} (h : '\n' ∉ line) (count : Nat)
    (rest : List Char) : dropLines (count + 1) (line ++ '\n' :: rest) = dropLines count rest := by
  induction line with
  | nil => rfl
  | cons c line ih =>
    rw [List.mem_cons, not_or] at h
    rw [List.cons_append, dropLines, ih h.2]
    exact fun same => h.1 same.symm

theorem other_than_feed {line : List Char} (h : '\n' ∉ line) :
    ∀ c ∈ line, decide (c ≠ '\n') = true := by
  intro c hc
  rw [decide_eq_true_eq]
  exact fun same => h (same ▸ hc)

theorem firstLine?_of_not_mem {s : List Char} (h : '\n' ∉ s) :
    firstLine? s = if s = [] then none else some s := by
  have whole : s.takeWhile (· ≠ '\n') = s := by
    rw [← List.append_nil s, List.takeWhile_append_of_pos (other_than_feed h)]
    rfl
  simp only [firstLine?, whole, Nat.lt_irrefl, false_and, if_false]

theorem firstLine?_append_feed {line : List Char} (h : '\n' ∉ line) (rest : List Char) :
    firstLine? (line ++ '\n' :: rest) = some (dropReturn line) := by
  have first : (line ++ '\n' :: rest).takeWhile (· ≠ '\n') = line := by
    rw [List.takeWhile_append_of_pos (other_than_feed h)]
    simp
  have shorter : line.length < (line ++ '\n' :: rest).length := by simp
  rw [firstLine?, if_neg (by simp)]
  simp only [first, shorter, true_and, dropReturn]
  split <;> rfl

theorem line?_eq_getElem? (number : Nat) (s : List Char) : line? number s = (lines s)[number]? := by
  induction number generalizing s with
  | zero =>
    by_cases feed : '\n' ∈ s
    · obtain ⟨line, rest, rfl, first⟩ := List.eq_append_cons_of_mem feed
      rw [line?, dropLines, firstLine?_append_feed first, lines_append_feed first]
      rfl
    · rw [line?, dropLines, firstLine?_of_not_mem feed, lines_of_not_mem feed]
      split <;> rfl
  | succ number ih =>
    by_cases feed : '\n' ∈ s
    · obtain ⟨line, rest, rfl, first⟩ := List.eq_append_cons_of_mem feed
      rw [line?, dropLines_append_feed first, lines_append_feed first, List.getElem?_cons_succ,
        ← ih]
      rfl
    · rw [line?, dropLines_of_not_mem feed, lines_of_not_mem feed]
      split <;> rfl

end Text

/-- What stands before a quoted line: its number at the right end of four columns, or of as many as
it has digits, and a bar. -/
def gutter (number : Nat) : List Char :=
  let digits := Nat.toDigits 10 number
  ' ' :: (List.replicate (4 - digits.length) ' ' ++ digits ++ [' ', '|', ' '])

theorem quotedLine_eq (number : Nat) (line : List Char) :
    quotedLine number line = String.ofList (gutter number ++ line) := by
  apply String.toList_inj.mp
  simp [quotedLine, blanks, gutter, Nat.toList_repr, ← String.length_toList]

theorem length_gutter (number : Nat) :
    (gutter number).length = 8 + ((Nat.toDigits 10 number).length - 4) := by
  simp only [gutter, List.length_cons, List.length_append, List.length_replicate, List.length_nil]
  omega

def caret (column : Nat) : List Char :=
  [' ', ' ', ' ', ' ', ' ', ' ', '|', ' '] ++ List.replicate (column - 1) ' ' ++ ['^']

theorem caretLine_eq {column : Nat} (room : column - 1 ≤ screen.room) :
    caretLine screen column = .ok (String.ofList (caret column)) := by
  rw [caretLine, if_pos room]
  congr 1
  apply String.toList_inj.mp
  simp [blanks, caret]

theorem count_caret (column : Nat) : (caret column).count '^' = 1 := by
  simp [caret, List.count_replicate]

theorem idxOf_caret (column : Nat) : (caret column).idxOf '^' = 8 + (column - 1) := by
  have before :
      '^' ∉ [' ', ' ', ' ', ' ', ' ', ' ', '|', ' '] ++ List.replicate (column - 1) ' ' := by
    simp [List.mem_replicate]
  rw [caret, List.idxOf_append_of_notMem before, List.idxOf_cons_self, List.length_append,
    List.length_replicate]
  rfl

namespace Rejection

section
variable {rejection : Rejection} {p : Position} {source : String} {screen : Screen}

theorem screenText_of_line (hp : rejection.position = some p) (plain : screen.color = false)
    (room : p.column.toNat - 1 ≤ screen.room)
    (found : (Text.lines source.toList)[p.line.toNat - 1]? = some line) :
    rejection.screenText (some source) screen =
      (rejection.report.summary ++ "\n" ++ String.ofList (gutter p.line.toNat ++ line) ++ "\n" ++
        String.ofList (caret p.column.toNat) ++ "\n", none) := by
  simp only [screenText, hp, Text.line?_eq_getElem?, found, caretLine_eq room, quotedLine_eq,
    Style.paint, plain, Bool.false_eq_true, if_false]

theorem screenText_of_no_line (hp : rejection.position = some p) (plain : screen.color = false)
    (missing : (Text.lines source.toList)[p.line.toNat - 1]? = none) :
    rejection.screenText (some source) screen = (rejection.report.summary ++ "\n", none) := by
  simp only [screenText, hp, Text.line?_eq_getElem?, missing, Style.paint, plain,
    Bool.false_eq_true, if_false]

end

/-- The line with the number of the position is quoted if there is one. The caret below it is under
the column exactly if the number has four digits at most; otherwise it is too far to the left, by as
many places as there are digits more. -/
theorem screenText_quotes {rejection : Rejection} {p : Position} {screen : Screen}
    (hp : rejection.position = some p) (plain : screen.color = false)
    (room : p.column.toNat - 1 ≤ screen.room) (source : String) :
    match (Text.lines source.toList)[p.line.toNat - 1]? with
    | none => rejection.screenText (some source) screen = (rejection.report.summary ++ "\n", none)
    | some line => ∃ below : List Char,
        rejection.screenText (some source) screen =
          (rejection.report.summary ++ "\n" ++ String.ofList (gutter p.line.toNat ++ line) ++
            "\n" ++ String.ofList below ++ "\n", none) ∧
        below.count '^' = 1 ∧
        below.idxOf '^' + ((Nat.toDigits 10 p.line.toNat).length - 4) =
          (gutter p.line.toNat).length + (p.column.toNat - 1) ∧
        (below.idxOf '^' = (gutter p.line.toNat).length + (p.column.toNat - 1) ↔
          p.line.toNat < 10000) := by
  split
  · rename_i missing
    exact screenText_of_no_line hp plain missing
  · rename_i line found
    refine ⟨caret p.column.toNat, screenText_of_line hp plain room found, count_caret _, ?_⟩
    have digits : (Nat.toDigits 10 p.line.toNat).length ≤ 4 ↔ p.line.toNat < 10 ^ 4 :=
      Nat.length_toDigits_le_iff (by decide) (by decide)
    rw [idxOf_caret, length_gutter]
    omega

def looping (p : Position) : Rejection :=
  .infiniteLoop "pulsec.opt.while" (some p)

theorem looping_quotes :
    (Text.lines "var x\nwhile 1 == 1 do\r\nend\n".toList)[1]? = some "while 1 == 1 do".toList ∧
      ∃ below : List Char,
        (looping ⟨2, 7⟩).screenText (some "var x\nwhile 1 == 1 do\r\nend\n") { room := 80 } =
          ("PULSEC | ERROR | 2:7 | Infinite loops not allowed\n" ++
            "    2 | while 1 == 1 do\n" ++ String.ofList below ++ "\n", none) ∧
        below.idxOf '^' = "    2 | ".length + 6 := by
  have found : (Text.lines "var x\nwhile 1 == 1 do\r\nend\n".toList)[1]? =
      some "while 1 == 1 do".toList := by decide +kernel
  have place : (looping ⟨2, 7⟩).position = some ⟨2, 7⟩ := rfl
  have plain : ({ room := 80 } : Screen).color = false := rfl
  have quoted := screenText_quotes place plain (by decide) "var x\nwhile 1 == 1 do\r\nend\n"
  rw [show (Position.mk 2 7).line.toNat - 1 = 1 from rfl, found] at quoted
  obtain ⟨below, text, -, -, under⟩ := quoted
  exact ⟨found, below, text, under.mpr (by decide)⟩

def lateLoop (count : Nat) : String :=
  String.ofList (List.replicate count '\n' ++ "while 1 do".toList)

theorem lines_lateLoop (count : Nat) :
    (Text.lines (lateLoop count).toList)[count]? = some "while 1 do".toList := by
  rw [lateLoop, String.toList_ofList]
  induction count with
  | zero => decide +kernel
  | succ count ih =>
    rw [List.replicate_succ, List.cons_append, ← List.nil_append ('\n' :: _),
      Text.lines_append_feed List.not_mem_nil]
    exact ih

theorem caret_not_always_under_column :
    (Text.lines (lateLoop 9999).toList)[9999]? = some "while 1 do".toList ∧
      (looping ⟨10000, 1⟩).screenText (some (lateLoop 9999)) {} =
        ("PULSEC | ERROR | 10000:1 | Infinite loops not allowed\n" ++ " 10000 | while 1 do\n" ++
          "      | ^\n", none) ∧
      " 10000 | while 1 do".toList.idxOf 'w' = 9 ∧ "      | ^".toList.idxOf '^' = 8 := by
  have number : (Position.mk 10000 1).line.toNat - 1 = 9999 := rfl
  have place : (looping ⟨10000, 1⟩).position = some ⟨10000, 1⟩ := rfl
  have plain : ({} : Screen).color = false := rfl
  have text := screenText_of_line place plain (by decide) (number ▸ lines_lateLoop 9999)
  refine ⟨lines_lateLoop 9999, text.trans ?_, by decide, by decide⟩
  decide +kernel

end Rejection

end EventScript
