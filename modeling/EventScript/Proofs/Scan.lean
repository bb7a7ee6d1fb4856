import EventScript.Json.Reader
import EventScript.Json.Value

/-! What is written is scanned back. A string, a number or a word that stands in a text as the
layout writes it is read to its end and no further, whatever comes before and after it. -/
namespace EventScript.Json

@[simp] theorem ok_bind (a : α) (f : α → Except ε β) : (Except.ok a >>= f) = f a := rfl

theorem bind_eq_ok {x : Except ε α} {f : α → Except ε β} (h : (x >>= f) = .ok b) :
    ∃ a, x = .ok a ∧ f a = .ok b := by
  cases x with
  | error e => cases h
  | ok a => exact ⟨a, rfl, h⟩

theorem map_eq_ok {x : Except ε α} {f : α → β} (h : x.map f = .ok b) :
    ∃ a, x = .ok a ∧ f a = b := by
  cases x with
  | error e => cases h
  | ok a => exact ⟨a, rfl, Except.ok.inj h⟩

theorem bind_ne_ok {x : Except ε α} {f : α → Except ε β} (h : ∀ a, f a ≠ .ok b) :
    (x >>= f) ≠ .ok b := by
  intro hx
  obtain ⟨a, -, ha⟩ := bind_eq_ok hx
  exact h a ha

theorem stopAt_ne_ok (cause : DecodeError) (rest : List Char) (a : α) :
    stopAt cause rest ≠ .ok a := by
  simp

theorem unexpected_ne_ok (expected : String) (s : List Char) (a : α) :
    unexpected expected s ≠ .ok a := by
  unfold unexpected
  split
  · exact stopAt_ne_ok _ _ a
  · exact bind_ne_ok fun _ => stopAt_ne_ok _ _ a
  · exact bind_ne_ok fun _ => stopAt_ne_ok _ _ a
  · exact bind_ne_ok fun _ => stopAt_ne_ok _ _ a
  · exact bind_ne_ok fun _ => stopAt_ne_ok _ _ a
  · exact stopAt_ne_ok _ _ a
  · exact stopAt_ne_ok _ _ a
  · exact bind_ne_ok fun _ => bind_ne_ok fun _ => stopAt_ne_ok _ _ a
  · split
    · exact bind_ne_ok fun _ => bind_ne_ok fun _ => stopAt_ne_ok _ _ a
    · simp

theorem mapError_eq_ok {x : Except ε α} {f : ε → ε'} : x.mapError f = .ok a ↔ x = .ok a := by
  cases x <;> constructor <;> intro h <;> cases h <;> rfl

/-! ### Blanks -/

theorem dropBlanks_append {blanks : List Char} (h : ∀ c ∈ blanks, isBlank c = true)
    (s : List Char) : dropBlanks (blanks ++ s) = dropBlanks s :=
  List.dropWhile_append_of_pos h

@[simp] theorem dropBlanks_lineBreak (depth : Nat) (s : List Char) :
    dropBlanks ((lineBreak depth).toList ++ s) = dropBlanks s := by
  apply dropBlanks_append
  intro c hc
  simp only [lineBreak, String.toList_append, String.toList_ofList, List.mem_append,
    List.mem_replicate] at hc
  rcases hc with hc | hc
  · obtain rfl := List.mem_singleton.mp hc
    rfl
  · rw [hc.2]
    rfl

theorem dropBlanks_cons {c : Char} (h : isBlank c = false) (s : List Char) :
    dropBlanks (c :: s) = c :: s := by
  rw [dropBlanks, List.dropWhile_cons, h]
  rfl

/-- What may stand after a value: the end of the text, a blank, a comma or a closing bracket. -/
def Delimits : List Char → Prop
  | [] => True
  | c :: _ => isBlank c = true ∨ c = ',' ∨ c = ']' ∨ c = '\x7d'

/-! ### Strings -/

theorem hexDigit?_digitChar : ∀ n < 16, hexDigit? (Nat.digitChar n) = some n := by decide

theorem codeUnit?_control {n : Nat} (h : n < 0x20) :
    codeUnit? '0' '0' (Nat.digitChar (n / 16)) (Nat.digitChar (n % 16)) = some n := by
  have high := hexDigit?_digitChar (n / 16) (by omega)
  have low := hexDigit?_digitChar (n % 16) (by omega)
  have zero : hexDigit? '0' = some 0 := rfl
  simp only [codeUnit?, high, low, zero, bind, Option.bind, pure, Option.some.injEq]
  omega

theorem scanString_control {c : Char} (h : c.toNat < 0x20) (read s : List Char) :
    scanString read ('\\' :: 'u' :: '0' :: '0' :: Nat.digitChar (c.toNat / 16) ::
      Nat.digitChar (c.toNat % 16) :: s) = scanString (c :: read) s := by
  have trailing : isTrailing c.toNat = false := by simp [isTrailing]; omega
  have leading : isLeading c.toNat = false := by simp [isLeading]; omega
  rw [scanString, codeUnit?_control h]
  simp only [trailing, leading, Char.ofNat_toNat]
  rfl

theorem scanString_plain {c : Char} (quote : c ≠ '"') (backslash : c ≠ '\\')
    (h : ¬ c.toNat < 0x20) (read s : List Char) :
    scanString read (c :: s) = scanString (c :: read) s := by
  rw [scanString.eq_def]
  split
  case h_7 _ _ _ _ same =>
    obtain ⟨rfl, rfl⟩ := List.cons.inj same
    exact if_neg h
  all_goals simp_all

theorem scanString_stringChar (c : Char) (read s : List Char) :
    scanString read (stringChar c ++ s) = scanString (c :: read) s := by
  unfold stringChar
  split
  case h_8 quote backslash _ _ _ _ _ =>
    split
    · rename_i control
      exact scanString_control control read s
    · rename_i plain
      exact scanString_plain quote backslash plain read s
  all_goals simp [scanString, escape?]

theorem scanString_written (cs read rest : List Char) :
    scanString read (cs.flatMap stringChar ++ '"' :: rest) =
      .ok (String.ofList (read.reverse ++ cs), rest) := by
  induction cs generalizing read with
  | nil => simp [scanString]
  | cons c cs ih =>
    rw [List.flatMap_cons, List.append_assoc, scanString_stringChar, ih]
    simp

theorem scanString_stringText (s : String) (rest : List Char) :
    scanString [] (s.toList.flatMap stringChar ++ '"' :: rest) = .ok (s, rest) := by
  simpa using scanString_written s.toList [] rest

/-! ### Numbers -/

theorem isDigit_of_mem_toDigits {c : Char} {n : Nat} (h : c ∈ Nat.toDigits 10 n) :
    isDigit c = true :=
  Nat.isDigit_of_mem_toDigits (by decide) (by decide) h

theorem digitChar_pos : ∀ n < 10, 0 < n → Nat.digitChar n ≠ '0' := by decide

theorem toDigits_pos {n : Nat} (h : 0 < n) :
    ∃ c digits, Nat.toDigits 10 n = c :: digits ∧ c ≠ '0' := by
  induction n using Nat.base_induction 10 (by decide) with
  | single n small => exact ⟨_, [], Nat.toDigits_of_lt_base small, digitChar_pos n small h⟩
  | digit n k hk hn ih =>
    obtain ⟨c, digits, front, hc⟩ := ih hn
    refine ⟨c, digits ++ Nat.toDigits 10 k, ?_, hc⟩
    rw [← Nat.toDigits_append_toDigits (by decide) hn hk, front]
    rfl

theorem le_ofDigitChars (digits : List Char) (n : Nat) : n ≤ Nat.ofDigitChars 10 digits n := by
  rw [Nat.ofDigitChars_eq_ofDigitChars_zero]
  have := Nat.le_mul_of_pos_left n (Nat.pow_pos (n := digits.length) (show 0 < 10 by decide))
  omega

/-- A number that fits the significand is absorbed to its last digit. -/
theorem absorb_of_lt {digits : List Char} {n : Nat}
    (h : Nat.ofDigitChars 10 digits n < UInt64.size) :
    absorb n digits = (Nat.ofDigitChars 10 digits n, []) := by
  induction digits generalizing n with
  | nil => rfl
  | cons c digits ih =>
    rw [Nat.ofDigitChars_cons, Nat.mul_comm] at h ⊢
    have room := Nat.lt_of_le_of_lt (le_ofDigitChars digits _) h
    rw [absorb, ← ih h]
    exact if_pos room

theorem Delimits.head {c : Char} {s : List Char} (h : Delimits (c :: s)) :
    isDigit c = false ∧ c ≠ '.' ∧ c ≠ 'e' ∧ c ≠ 'E' := by
  simp only [Delimits, isBlank, Bool.or_eq_true, decide_eq_true_eq] at h
  rcases h with (((rfl | rfl) | rfl) | rfl) | rfl | rfl | rfl <;> decide

theorem Delimits.span {digits rest : List Char} (h : ∀ c ∈ digits, isDigit c = true)
    (hrest : Delimits rest) :
    (digits ++ rest).takeWhile isDigit = digits ∧ (digits ++ rest).dropWhile isDigit = rest := by
  rw [List.takeWhile_append_of_pos h, List.dropWhile_append_of_pos h]
  cases rest with
  | nil => simp
  | cons c s => simp [hrest.head.1]

namespace Numeral

theorem scanWhole_written (n : Nat) {rest : List Char} (hrest : Delimits rest)
    (ended : DecodeError) :
    scanWhole ended (Nat.toDigits 10 n ++ rest) = .ok (Nat.toDigits 10 n, rest) := by
  have all : ∀ c ∈ Nat.toDigits 10 n, isDigit c = true := fun _ => isDigit_of_mem_toDigits
  have span := hrest.span all
  rcases Nat.eq_zero_or_pos n with rfl | pos
  · rw [Nat.toDigits_zero] at *
    cases rest with
    | nil => rfl
    | cons c s => simp [scanWhole, hrest.head.1]
  · obtain ⟨c, digits, hn, hc⟩ := toDigits_pos pos
    rw [hn] at all span ⊢
    have digit : isDigit c = true := all c List.mem_cons_self
    rw [List.cons_append] at span ⊢
    unfold scanWhole
    split
    · simp_all
    · simp only [scanDigits, digit, if_true, span.1, span.2]

theorem scan_written (n : Nat) {rest : List Char} (hrest : Delimits rest) (ended : DecodeError)
    (negative : Bool) :
    scan ended negative (Nat.toDigits 10 n ++ rest) =
      .ok (⟨negative, Nat.toDigits 10 n, [], none⟩, rest) := by
  have fraction : scanFraction ended rest = .ok ([], rest) := by
    unfold scanFraction
    split
    · exact absurd rfl hrest.head.2.1
    · rfl
  have power : scanPower ended rest = .ok (none, rest) := by
    unfold scanPower
    split
    · exact absurd rfl hrest.head.2.2.1
    · exact absurd rfl hrest.head.2.2.2
    · rfl
  simp only [scan, scanWhole_written n hrest, fraction, power, bind, Except.bind, pure,
    Except.pure]

theorem valueBefore_of_value {n : Numeral} (h : n.value = .ok v) (rest : List Char) :
    n.valueBefore rest = .ok v :=
  mapError_eq_ok.mpr h

theorem value_positive {n : Nat} (h : n < UInt64.size) :
    value ⟨false, Nat.toDigits 10 n, [], none⟩ = .ok (.integer n) := by
  have whole : absorb 0 (Nat.toDigits 10 n) = (n, []) := by
    rw [absorb_of_lt] <;> rw [Nat.ofDigitChars_ten_toDigits]
    exact h
  simp [value, whole]

theorem value_negative {n : Nat} (h : 0 < n) (bound : n ≤ signBit) :
    value ⟨true, Nat.toDigits 10 n, [], none⟩ = .ok (.integer (-n)) := by
  have whole : absorb 0 (Nat.toDigits 10 n) = (n, []) := by
    rw [absorb_of_lt] <;> rw [Nat.ofDigitChars_ten_toDigits]
    exact Nat.lt_of_le_of_lt bound (by decide)
  have small : ¬ (n = 0 ∨ signBit < n) := by omega
  simp [value, whole, small]

end Numeral

theorem toDigits_head (n : Nat) :
    ∃ c digits, Nat.toDigits 10 n = c :: digits ∧ isDigit c = true := by
  cases h : Nat.toDigits 10 n with
  | nil => exact absurd h Nat.toDigits_ne_nil
  | cons c digits => exact ⟨c, digits, rfl, isDigit_of_mem_toDigits (h ▸ List.mem_cons_self)⟩

theorem isDigit_plain {c : Char} (h : isDigit c = true) : isBlank c = false ∧ c ≠ '-' := by
  constructor
  · rw [← Bool.not_eq_true]
    intro blank
    simp only [isBlank, Bool.or_eq_true, decide_eq_true_eq] at blank
    rcases blank with ((rfl | rfl) | rfl) | rfl <;> cases h
  · rintro rfl
    cases h

theorem readInteger_positive {n : Nat} {least greatest : Int} (bound : n < UInt64.size)
    (range : least ≤ n ∧ n ≤ greatest) (expected : String) {rest : List Char}
    (hrest : Delimits rest) :
    readInteger expected least greatest (Nat.toDigits 10 n ++ rest) = .ok ((n : Int), rest) := by
  obtain ⟨c, digits, hn, digit⟩ := toDigits_head n
  have scanned := Numeral.scan_written n hrest .eofInValue false
  have plain := isDigit_plain digit
  rw [hn, List.cons_append] at scanned ⊢
  unfold readInteger
  rw [dropBlanks_cons plain.1]
  split
  · rename_i h
    exact absurd (List.cons.inj h).1 plain.2
  · rename_i h
    obtain ⟨rfl, rfl⟩ := List.cons.inj h
    simp only [digit, if_true, scanned, ← hn, bind, Except.bind,
      Numeral.valueBefore_of_value (Numeral.value_positive bound), range, and_self, pure,
      Except.pure]
  · rename_i h
    cases h

theorem readInteger_negative {n : Nat} {least greatest : Int} (pos : 0 < n)
    (bound : n ≤ signBit) (range : least ≤ -n ∧ -n ≤ greatest) (expected : String)
    {rest : List Char} (hrest : Delimits rest) :
    readInteger expected least greatest ('-' :: Nat.toDigits 10 n ++ rest) =
      .ok (-(n : Int), rest) := by
  unfold readInteger
  rw [List.cons_append, dropBlanks_cons rfl]
  simp only [Numeral.scan_written n hrest .eofInValue true, bind, Except.bind,
    Numeral.valueBefore_of_value (Numeral.value_negative pos bound), range, and_self, if_true, pure,
    Except.pure]

end EventScript.Json
