import EventScript.Proofs.Scan

/-! The grammar of JSON texts, with blanks between all tokens, and what passes over them. A value
that nobody wants may be any text of the grammar, nested as deep as it likes; passing over it takes
no more steps than it has characters. -/
namespace EventScript.Json

/-! ### Pieces, brackets and keys -/

def Blank (s : List Char) : Prop := ∀ c ∈ s, isBlank c = true

/-- Pieces with blanks around them and a comma before each but the first, one for each of the
predicates. -/
inductive Separated : (first : Bool) → List (List Char → Prop) → List Char → Prop where
  | done {first : Bool} {s : List Char} : Blank s → Separated first [] s
  | start {P : List Char → Prop} {Ps : List (List Char → Prop)} {before piece after : List Char} :
      Blank before → P piece → Separated false Ps after →
      Separated true (P :: Ps) (before ++ (piece ++ after))
  | next {P : List Char → Prop} {Ps : List (List Char → Prop)}
      {gap before piece after : List Char} :
      Blank gap → Blank before → P piece → Separated false Ps after →
      Separated false (P :: Ps) (gap ++ ',' :: (before ++ (piece ++ after)))

namespace Bracket

def left : Bracket → Char
  | list => '['
  | object => '\x7b'

def right : Bracket → Char
  | list => ']'
  | object => '\x7d'

def Encloses (b : Bracket) (Ps : List (List Char → Prop)) (s : List Char) : Prop :=
  ∃ inside, Separated true Ps inside ∧ s = b.left :: (inside ++ [b.right])

end Bracket

def Keyed (K V : List Char → Prop) (s : List Char) : Prop :=
  ∃ key before after value, K key ∧ Blank before ∧ Blank after ∧ V value ∧
    s = key ++ (before ++ ':' :: (after ++ value))

/-! ### Strings -/

def Quoted (body : List Char → Prop) (s : List Char) : Prop :=
  ∃ inside, body inside ∧ s = '"' :: (inside ++ ['"'])

def Verbatim (c : Char) : Prop := c ≠ '"' ∧ c ≠ '\\' ∧ 0x20 ≤ c.toNat

/-- What may stand in a string; surrogates need not be paired. -/
inductive StringBody : List Char → Prop where
  | nil : StringBody []
  | verbatim : Verbatim c → StringBody s → StringBody (c :: s)
  | escape : c ∈ "\"\\/bfnrt".toList → StringBody s → StringBody ('\\' :: c :: s)
  | unit : (∀ digit ∈ [a, b, c, d], digit ∈ "0123456789abcdefABCDEF".toList) → StringBody s →
      StringBody ('\\' :: 'u' :: a :: b :: c :: d :: s)

/-- The characters that a string stands for. -/
inductive Denotes : List Char → List Char → Prop where
  | nil : Denotes [] []
  | verbatim : Verbatim c → Denotes cs s → Denotes (c :: cs) (c :: s)
  | escape : escape? e = some c → Denotes cs s → Denotes (c :: cs) ('\\' :: e :: s)
  | unit : codeUnit? a b c d = some unit → isLeading unit = false → isTrailing unit = false →
      Denotes cs s → Denotes (Char.ofNat unit :: cs) ('\\' :: 'u' :: a :: b :: c :: d :: s)
  | pair : codeUnit? a b c d = some leading → isLeading leading = true →
      codeUnit? e f g h = some trailing → isTrailing trailing = true → Denotes cs s →
      Denotes (pairChar leading trailing :: cs)
        ('\\' :: 'u' :: a :: b :: c :: d :: '\\' :: 'u' :: e :: f :: g :: h :: s)

/-- A string that stands for this one. -/
def Spelled (text : String) : List Char → Prop := Quoted (Denotes text.toList)

/-! ### Numbers and values -/

def Digits (s : List Char) : Prop := s ≠ [] ∧ ∀ c ∈ s, isDigit c = true

def Whole (s : List Char) : Prop := s = ['0'] ∨ Digits s ∧ s.head? ≠ some '0'

def Fraction (s : List Char) : Prop := s = [] ∨ ∃ digits, Digits digits ∧ s = '.' :: digits

def Power (s : List Char) : Prop :=
  s = [] ∨ ∃ e sign digits, e ∈ ['e', 'E'] ∧ sign ∈ [[], ['+'], ['-']] ∧ Digits digits ∧
    s = e :: (sign ++ digits)

def Unsigned (s : List Char) : Prop :=
  ∃ whole fraction power, Whole whole ∧ Fraction fraction ∧ Power power ∧
    s = whole ++ (fraction ++ power)

def Scalar (s : List Char) : Prop :=
  s ∈ ["null".toList, "true".toList, "false".toList] ∨ Unsigned s ∨
    (∃ digits, Unsigned digits ∧ s = '-' :: digits) ∨ Quoted StringBody s

/-- A value that nests no deeper than this. -/
def ValidWithin : Nat → List Char → Prop
  | 0, s => Scalar s
  | depth + 1, s => Scalar s ∨ ∃ count,
      Bracket.list.Encloses (List.replicate count (ValidWithin depth)) s ∨
        Bracket.object.Encloses
          (List.replicate count (Keyed (Quoted StringBody) (ValidWithin depth))) s

def Valid (s : List Char) : Prop := ∃ depth, ValidWithin depth s

/-! ### Blanks and delimiters -/

theorem Blank.nil : Blank [] := List.forall_mem_nil _

theorem Blank.drop (h : Blank before) (plain : isBlank c = false) (s : List Char) :
    dropBlanks (before ++ c :: s) = c :: s := by
  rw [dropBlanks_append h, dropBlanks_cons plain]

theorem Blank.delimits (h : Blank before) (hrest : Delimits rest) : Delimits (before ++ rest) := by
  cases before with
  | nil => exact hrest
  | cons c before => exact .inl (h c List.mem_cons_self)

theorem Bracket.delimits_right (b : Bracket) (s : List Char) : Delimits (b.right :: s) := by
  cases b with
  | list => exact .inr (.inr (.inl rfl))
  | object => exact .inr (.inr (.inr rfl))

theorem Blank.scanColon (h : Blank before) (s : List Char) :
    scanColon (before ++ ':' :: s) = .ok s := by
  rw [Json.scanColon, h.drop rfl]
  rfl

theorem Separated.delimits (h : Separated false Ps s) (b : Bracket) (rest : List Char) :
    Delimits (s ++ b.right :: rest) := by
  cases h with
  | done blank => exact blank.delimits (b.delimits_right rest)
  | next gap =>
    rw [List.append_assoc]
    exact gap.delimits (.inr (.inl rfl))

def Begins (b : Bracket) (s : List Char) : Prop :=
  ∃ c rest, s = c :: rest ∧ isBlank c = false ∧ c ≠ b.right

/-! ### Passing over strings and numbers -/

theorem skipString_verbatim (h : Verbatim c) (s : List Char) :
    skipString (c :: s) = skipString s := by
  obtain ⟨quote, backslash, visible⟩ := h
  rw [skipString.eq_def]
  split
  case h_7 same =>
    obtain ⟨rfl, rfl⟩ := List.cons.inj same
    exact if_neg (Nat.not_lt.mpr visible)
  all_goals simp_all

theorem isSome_escape? (h : c ∈ "\"\\/bfnrt".toList) : (escape? c).isSome = true := by
  have all : ("\"\\/bfnrt".toList.all fun c => (escape? c).isSome) = true := by decide
  exact List.all_eq_true.mp all c h

theorem isSome_hexDigit? (h : c ∈ "0123456789abcdefABCDEF".toList) :
    (hexDigit? c).isSome = true := by
  have all : ("0123456789abcdefABCDEF".toList.all fun c => (hexDigit? c).isSome) = true := by decide
  exact List.all_eq_true.mp all c h

theorem skipString_escape (h : (escape? c).isSome = true) (s : List Char) :
    skipString ('\\' :: c :: s) = skipString s := by
  unfold escape? at h
  split at h <;> simp_all [skipString, escape?]

theorem skipString_body (h : StringBody s) (rest : List Char) :
    skipString (s ++ '"' :: rest) = .ok rest := by
  induction h with
  | nil => simp [skipString]
  | verbatim plain _ ih => rw [List.cons_append, skipString_verbatim plain, ih]
  | escape he _ ih =>
    rw [List.cons_append, List.cons_append, skipString_escape (isSome_escape? he), ih]
  | @unit a b c d s hd _ ih =>
    have digits (x) (hx : x ∈ [a, b, c, d]) := Option.isSome_iff_exists.mp
      (isSome_hexDigit? (hd x hx))
    obtain ⟨i, hi⟩ := digits a (by simp)
    obtain ⟨j, hj⟩ := digits b (by simp)
    obtain ⟨k, hk⟩ := digits c (by simp)
    obtain ⟨l, hl⟩ := digits d (by simp)
    simp only [List.cons_append, skipString, codeUnit?, hi, hj, hk, hl, ih]
    rfl

theorem scanString_escape (h : escape? e = some c) (read s : List Char) :
    scanString read ('\\' :: e :: s) = scanString (c :: read) s := by
  unfold escape? at h
  split at h <;> cases h <;> simp [scanString, escape?]

theorem isTrailing_of_isLeading (h : isLeading unit = true) : isTrailing unit = false := by
  simp only [isLeading, isTrailing, Bool.and_eq_true, decide_eq_true_eq, Bool.and_eq_false_iff,
    decide_eq_false_iff_not] at *
  omega

theorem scanString_denotes (h : Denotes cs s) (read rest : List Char) :
    scanString read (s ++ '"' :: rest) = .ok (String.ofList (read.reverse ++ cs), rest) := by
  induction h generalizing read with
  | nil => simp [scanString]
  | verbatim plain _ ih =>
    rw [List.cons_append, scanString_plain plain.1 plain.2.1 (Nat.not_lt.mpr plain.2.2), ih]
    simp
  | escape he _ ih =>
    rw [List.cons_append, List.cons_append, scanString_escape he, ih]
    simp
  | unit hu leading trailing _ ih =>
    simp only [List.cons_append]
    rw [scanString, hu]
    simp [leading, trailing, ih]
  | pair hu leading hv trailing _ ih =>
    simp only [List.cons_append]
    rw [scanString, hu]
    simp [leading, isTrailing_of_isLeading leading, trailing, hv, ih]

theorem Spelled.scan {name : String} (h : Spelled name key) :
    ∃ s, key = '"' :: s ∧ ∀ rest, scanString [] (s ++ rest) = .ok (name, rest) := by
  obtain ⟨inside, body, rfl⟩ := h
  refine ⟨_, rfl, fun rest => ?_⟩
  rw [List.append_assoc, List.singleton_append, scanString_denotes body]
  simp

/-- No digit comes next. -/
def DigitsEnd (rest : List Char) : Prop := ∀ c ∈ rest.head?, isDigit c = false

theorem Delimits.digitsEnd (h : Delimits rest) : DigitsEnd rest := by
  cases rest with
  | nil => simp [DigitsEnd]
  | cons c s => simpa [DigitsEnd] using h.head.1

theorem scanDigits_digits (h : Digits digits) (next : DigitsEnd rest) (ended : DecodeError) :
    Numeral.scanDigits ended (digits ++ rest) = .ok (digits, rest) := by
  obtain ⟨nonempty, all⟩ := h
  have front : (digits ++ rest).takeWhile isDigit = digits := by
    rw [List.takeWhile_append_of_pos all]
    cases rest <;> simp_all [DigitsEnd]
  have back : (digits ++ rest).dropWhile isDigit = rest := by
    rw [List.dropWhile_append_of_pos all]
    cases rest <;> simp_all [DigitsEnd]
  obtain ⟨c, digits, rfl⟩ := List.exists_cons_of_ne_nil nonempty
  rw [List.cons_append] at *
  simp only [Numeral.scanDigits, all c List.mem_cons_self, if_true, front, back]

theorem scanWhole_whole (h : Whole whole) (next : DigitsEnd rest) (ended : DecodeError) :
    Numeral.scanWhole ended (whole ++ rest) = .ok (whole, rest) := by
  rcases h with rfl | ⟨digits, head⟩
  · cases rest with
    | nil => rfl
    | cons c s => simp [Numeral.scanWhole, next c rfl]
  · have scanned := scanDigits_digits digits next ended
    obtain ⟨c, s, rfl⟩ := List.exists_cons_of_ne_nil digits.1
    have other : c ≠ '0' := by simpa using head
    unfold Numeral.scanWhole
    split
    · simp_all
    · exact scanned

theorem scanFraction_fraction (h : Fraction fraction) (next : DigitsEnd rest)
    (point : rest.head? ≠ some '.') (ended : DecodeError) :
    ∃ f, Numeral.scanFraction ended (fraction ++ rest) = .ok (f, rest) := by
  rcases h with rfl | ⟨digits, hdigits, rfl⟩
  · refine ⟨[], ?_⟩
    rw [List.nil_append]
    unfold Numeral.scanFraction
    split
    · exact absurd rfl point
    · rfl
  · exact ⟨digits, scanDigits_digits hdigits next ended⟩

theorem scanPower_power (h : Power power) (hrest : Delimits rest) (ended : DecodeError) :
    ∃ p, Numeral.scanPower ended (power ++ rest) = .ok (p, rest) := by
  rcases h with rfl | ⟨e, sign, digits, he, hsign, hdigits, rfl⟩
  · refine ⟨none, ?_⟩
    rw [List.nil_append]
    unfold Numeral.scanPower
    split
    · exact absurd rfl hrest.head.2.2.1
    · exact absurd rfl hrest.head.2.2.2
    · rfl
  · have scanned := scanDigits_digits hdigits hrest.digitsEnd ended
    obtain ⟨c, s, rfl⟩ := List.exists_cons_of_ne_nil hdigits.1
    have digit := hdigits.2 c List.mem_cons_self
    simp only [List.mem_cons, List.not_mem_nil, or_false] at he hsign
    have signed : ∃ p,
        Numeral.scanPower ended ('e' :: (sign ++ (c :: s ++ rest))) = .ok (p, rest) := by
      rcases hsign with rfl | rfl | rfl
      · refine ⟨some (false, c :: s), ?_⟩
        have minus : c ≠ '-' := by rintro rfl; cases digit
        have plus : c ≠ '+' := by rintro rfl; cases digit
        simp only [Numeral.scanPower, List.nil_append, List.cons_append] at scanned ⊢
        split
        · simp_all
        · simp_all
        · rw [scanned]
          rfl
      · refine ⟨some (false, c :: s), ?_⟩
        simp only [Numeral.scanPower, List.cons_append, List.nil_append] at scanned ⊢
        rw [scanned]
        rfl
      · refine ⟨some (true, c :: s), ?_⟩
        simp only [Numeral.scanPower, List.cons_append, List.nil_append] at scanned ⊢
        rw [scanned]
        rfl
    rw [List.cons_append, List.append_assoc]
    rcases he with rfl | rfl
    · exact signed
    · exact signed

theorem after_power (h : Power power) (hrest : Delimits rest) :
    DigitsEnd (power ++ rest) ∧ (power ++ rest).head? ≠ some '.' := by
  rcases h with rfl | ⟨e, sign, digits, he, -, -, rfl⟩
  · refine ⟨hrest.digitsEnd, ?_⟩
    cases rest with
    | nil => simp
    | cons c s => simpa using hrest.head.2.1
  · simp only [List.mem_cons, List.not_mem_nil, or_false] at he
    rcases he with rfl | rfl <;> simp [DigitsEnd, isDigit]

theorem skipNumber_unsigned (h : Unsigned s) (hrest : Delimits rest) (negative : Bool) :
    skipNumber negative (s ++ rest) = .ok rest := by
  obtain ⟨whole, fraction, power, hwhole, hfraction, hpower, rfl⟩ := h
  obtain ⟨next, point⟩ := after_power hpower hrest
  have first : DigitsEnd (fraction ++ (power ++ rest)) := by
    rcases hfraction with rfl | ⟨digits, -, rfl⟩
    · exact next
    · simp [DigitsEnd, isDigit]
  obtain ⟨f, scannedFraction⟩ := scanFraction_fraction hfraction next point .invalidNumber
  obtain ⟨p, scannedPower⟩ := scanPower_power hpower hrest .invalidNumber
  rw [List.append_assoc, List.append_assoc, skipNumber, Numeral.scan,
    scanWhole_whole hwhole first]
  simp only [ok_bind, scannedFraction, scannedPower]
  rfl

theorem Unsigned.head (h : Unsigned s) : ∃ c rest, s = c :: rest ∧ isDigit c = true := by
  obtain ⟨whole, fraction, power, hwhole, -, -, rfl⟩ := h
  rcases hwhole with rfl | ⟨⟨nonempty, all⟩, -⟩
  · exact ⟨_, _, rfl, by decide⟩
  · obtain ⟨c, digits, rfl⟩ := List.exists_cons_of_ne_nil nonempty
    exact ⟨_, _, rfl, all c List.mem_cons_self⟩

/-! ### Passing over values -/

/-- The text is passed over in as many steps as it has characters, or fewer. -/
def Passed (s : List Char) : Prop :=
  ∃ k ≤ s.length, ∀ fuel brackets before rest, Blank before → Delimits rest →
    skipOpen (fuel + k) brackets (before ++ (s ++ rest)) = closeOpen fuel brackets rest

theorem skipOpen_digit (hc : isDigit c = true) (blank : Blank before) (fuel : Nat)
    (brackets : List Bracket) (s : List Char) :
    skipOpen (fuel + 1) brackets (before ++ c :: s) =
      (skipNumber false (c :: s) >>= closeOpen fuel brackets) := by
  rw [skipOpen, blank.drop (isDigit_plain hc).1]
  split
  case h_9 same =>
    obtain ⟨rfl, rfl⟩ := List.cons.inj same
    exact if_pos hc
  all_goals simp_all [isDigit]

theorem Scalar.passed (h : Scalar s) : Passed s := by
  rcases h with word | number | ⟨digits, number, rfl⟩ | ⟨inside, body, rfl⟩
  · simp only [List.mem_cons, List.not_mem_nil, or_false] at word
    refine ⟨1, ?_, fun fuel brackets before rest blank _ => ?_⟩
    · rcases word with rfl | rfl | rfl <;> decide
    · rw [skipOpen, dropBlanks_append blank]
      rcases word with rfl | rfl | rfl <;> rfl
  · obtain ⟨c, digits, rfl, digit⟩ := number.head
    refine ⟨1, by simp, fun fuel brackets before rest blank hrest => ?_⟩
    rw [List.cons_append, skipOpen_digit digit blank, ← List.cons_append,
      skipNumber_unsigned number hrest]
    rfl
  · refine ⟨1, by simp, fun fuel brackets before rest blank hrest => ?_⟩
    rw [List.cons_append, skipOpen, blank.drop rfl]
    simp only [skipNumber_unsigned number hrest]
    rfl
  · refine ⟨1, by simp, fun fuel brackets before rest blank hrest => ?_⟩
    rw [List.cons_append, skipOpen, blank.drop rfl]
    simp only [List.append_assoc, List.singleton_append, skipString_body body]
    rfl

namespace Bracket

def enter (b : Bracket) (fuel : Nat) (brackets : List Bracket) (s : List Char) :
    Except Misread (List Char) :=
  match b with
  | list => skipOpen fuel (list :: brackets) s
  | object => skipKey s >>= skipOpen fuel (object :: brackets)

theorem enter_blanks (b : Bracket) (blank : Blank before) (fuel : Nat) (brackets : List Bracket)
    (s : List Char) : b.enter fuel brackets (before ++ s) = b.enter fuel brackets s := by
  cases b with
  | list =>
    cases fuel with
    | zero => rw [enter, enter, skipOpen, skipOpen]
    | succ fuel => rw [enter, enter, skipOpen, skipOpen, dropBlanks_append blank]
  | object => rw [enter, enter, skipKey, skipKey, dropBlanks_append blank]

theorem isBlank_left (b : Bracket) : isBlank b.left = false := by cases b <;> rfl

theorem isBlank_right (b : Bracket) : isBlank b.right = false := by cases b <;> rfl

theorem skipOpen_empty (b : Bracket) (blank : Blank before) (inner : Blank inside) (fuel : Nat)
    (brackets : List Bracket) (rest : List Char) :
    skipOpen (fuel + 1) brackets (before ++ b.left :: (inside ++ b.right :: rest)) =
      closeOpen fuel brackets rest := by
  have closing := inner.drop b.isBlank_right rest
  rw [skipOpen, blank.drop b.isBlank_left]
  cases b with
  | list =>
    simp only [left, closing]
    rfl
  | object =>
    simp only [left, closing]
    rfl

theorem skipOpen_left (b : Bracket) (blank : Blank before) (inner : Blank inside)
    (plain : isBlank c = false) (goes : c ≠ b.right) (fuel : Nat) (brackets : List Bracket)
    (s : List Char) :
    skipOpen (fuel + 1) brackets (before ++ b.left :: (inside ++ c :: s)) =
      b.enter fuel brackets (c :: s) := by
  rw [skipOpen, blank.drop b.isBlank_left]
  cases b with
  | list =>
    simp only [left, inner.drop plain]
    split
    · simp_all
    · exact absurd (List.cons.inj ‹_›).1 goes
    · rfl
  | object =>
    simp only [left, inner.drop plain]
    split
    · simp_all
    · exact absurd (List.cons.inj ‹_›).1 goes
    · rfl

theorem closeOpen_right (b : Bracket) (blank : Blank after) (fuel : Nat) (brackets : List Bracket)
    (rest : List Char) :
    closeOpen (fuel + 1) (b :: brackets) (after ++ b.right :: rest) =
      closeOpen fuel brackets rest := by
  cases b with
  | list => rw [closeOpen, blank.drop (isBlank_right list)]; rfl
  | object => rw [closeOpen, blank.drop (isBlank_right object)]; rfl

theorem closeOpen_comma (b : Bracket) (blank : Blank after) (fuel : Nat) (brackets : List Bracket)
    (rest : List Char) :
    closeOpen (fuel + 1) (b :: brackets) (after ++ ',' :: rest) = b.enter fuel brackets rest := by
  cases b with
  | list => rw [closeOpen, blank.drop rfl]; rfl
  | object => rw [closeOpen, blank.drop rfl]; rfl

def Enters (b : Bracket) (piece : List Char) : Prop :=
  ∃ k ≤ piece.length, ∀ fuel brackets rest, Delimits rest →
    b.enter (fuel + k) brackets (piece ++ rest) = closeOpen fuel (b :: brackets) rest

theorem enters_list (h : Passed s) : list.Enters s := by
  obtain ⟨k, short, pass⟩ := h
  exact ⟨k, short, fun fuel brackets rest hrest => pass fuel _ [] rest .nil hrest⟩

theorem enters_object (h : Keyed (Quoted StringBody) Passed s) : object.Enters s := by
  obtain ⟨_, before, after, value, ⟨key, body, rfl⟩, hbefore, hafter, ⟨k, short, pass⟩, rfl⟩ := h
  refine ⟨k, ?_, fun fuel brackets rest hrest => ?_⟩
  · simp only [List.length_append, List.length_cons]
    omega
  · simp only [enter, skipKey, List.cons_append, List.append_assoc, List.nil_append,
      dropBlanks_cons (show isBlank '"' = false from rfl), skipString_body body, ok_bind,
      hbefore.scanColon]
    exact pass fuel _ after rest hafter hrest

end Bracket

theorem Separated.closes {b : Bracket} (h : Separated false Ps s)
    (each : ∀ P ∈ Ps, ∀ s, P s → b.Enters s) :
    ∃ k ≤ s.length + 1, ∀ fuel brackets rest,
      closeOpen (fuel + k) (b :: brackets) (s ++ b.right :: rest) =
        closeOpen fuel brackets rest := by
  induction Ps generalizing s with
  | nil =>
    cases h with
    | done blank =>
      exact ⟨1, by simp, fun fuel brackets rest => b.closeOpen_right blank fuel brackets rest⟩
  | cons P Ps ih =>
    rw [List.forall_mem_cons] at each
    cases h with
    | next gap before piece after =>
      obtain ⟨k, short, pass⟩ := each.1 _ piece
      obtain ⟨k', short', close⟩ := ih after each.2
      refine ⟨k' + k + 1, ?_, fun fuel brackets rest => ?_⟩
      · simp only [List.length_append, List.length_cons]
        omega
      · simp only [List.append_assoc, List.cons_append, ← Nat.add_assoc]
        rw [b.closeOpen_comma gap, b.enter_blanks before, pass _ _ _ (after.delimits b rest), close]

theorem Bracket.Encloses.passed {b : Bracket} (h : b.Encloses Ps s)
    (begins : ∀ P ∈ Ps, ∀ s, P s → Begins b s) (each : ∀ P ∈ Ps, ∀ s, P s → b.Enters s) :
    Passed s := by
  obtain ⟨inside, pieces, rfl⟩ := h
  cases pieces with
  | done inner =>
    refine ⟨1, by simp, fun fuel brackets before rest blank _ => ?_⟩
    simp only [List.cons_append, List.append_assoc, List.nil_append]
    exact b.skipOpen_empty blank inner fuel brackets rest
  | start inner piece after =>
    rw [List.forall_mem_cons] at begins each
    obtain ⟨c, s, rfl, plain, goes⟩ := begins.1 _ piece
    obtain ⟨k, short, pass⟩ := each.1 _ piece
    obtain ⟨k', short', close⟩ := after.closes each.2
    refine ⟨k' + k + 1, ?_, fun fuel brackets before rest blank _ => ?_⟩
    · simp only [List.length_append, List.length_cons, List.length_nil] at short ⊢
      omega
    · have entered := pass (fuel + k') brackets _ (after.delimits b rest)
      simp only [List.cons_append, List.append_assoc, List.nil_append, ← Nat.add_assoc] at entered ⊢
      rw [b.skipOpen_left blank inner plain goes, entered, close]

theorem Scalar.begins (h : Scalar s) : Begins .list s := by
  rcases h with word | number | ⟨digits, -, rfl⟩ | ⟨inside, -, rfl⟩
  · simp only [List.mem_cons, List.not_mem_nil, or_false] at word
    rcases word with rfl | rfl | rfl <;> exact ⟨_, _, rfl, by decide, by decide⟩
  · obtain ⟨c, digits, rfl, digit⟩ := number.head
    refine ⟨c, digits, rfl, (isDigit_plain digit).1, ?_⟩
    rintro rfl
    cases digit
  · exact ⟨_, _, rfl, by decide, by decide⟩
  · exact ⟨_, _, rfl, by decide, by decide⟩

theorem ValidWithin.begins (h : ValidWithin depth s) : Begins .list s := by
  cases depth with
  | zero => exact Scalar.begins h
  | succ depth =>
    rcases h with scalar | ⟨count, ⟨inside, -, rfl⟩ | ⟨inside, -, rfl⟩⟩
    · exact scalar.begins
    · exact ⟨_, _, rfl, by decide, by decide⟩
    · exact ⟨_, _, rfl, by decide, by decide⟩

theorem ValidWithin.passed (h : ValidWithin depth s) : Passed s := by
  induction depth generalizing s with
  | zero => exact Scalar.passed h
  | succ depth ih =>
    rcases h with scalar | ⟨count, items | members⟩
    · exact scalar.passed
    · refine items.passed ?_ ?_ <;> intro P hP s hs <;>
        obtain rfl := List.eq_of_mem_replicate hP
      · exact hs.begins
      · exact Bracket.enters_list (ih hs)
    · refine members.passed ?_ ?_ <;> intro P hP s hs <;>
        obtain rfl := List.eq_of_mem_replicate hP <;>
        obtain ⟨key, before, after, value, hkey, hbefore, hafter, hvalue, rfl⟩ := hs
      · obtain ⟨inside, -, rfl⟩ := hkey
        exact ⟨_, _, rfl, by decide, by decide⟩
      · exact Bracket.enters_object
          ⟨key, before, after, value, hkey, hbefore, hafter, ih hvalue, rfl⟩

/-- Any value is passed over, if there are as many steps as it has characters. -/
theorem Valid.skipOpen (h : Valid s) (enough : s.length ≤ steps) (blank : Blank before)
    (hrest : Delimits rest) : skipOpen steps [] (before ++ (s ++ rest)) = .ok rest := by
  obtain ⟨depth, h⟩ := h
  obtain ⟨k, short, pass⟩ := h.passed
  obtain ⟨fuel, rfl⟩ := Nat.exists_eq_add_of_le' (Nat.le_trans short enough)
  rw [pass fuel [] before rest blank hrest, closeOpen]

end EventScript.Json
