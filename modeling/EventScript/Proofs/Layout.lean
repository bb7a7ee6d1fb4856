import EventScript.Proofs.Scan

/-! Lists and objects in the layout of a text, and how the readers go through them. -/
namespace EventScript.Json

/-! ### The layout as characters -/

def chars (depth : Nat) (json : Json) : List Char := (json.layout depth).toList

def itemsChars (depth : Nat) (items : List Json) : List Char := (layoutItems depth items).toList

def membersChars (depth : Nat) (members : List (String × Json)) : List Char :=
  (layoutMembers depth members).toList

def keyChars (s : String) : List Char := '"' :: (s.toList.flatMap stringChar ++ ['"'])

theorem chars_string (s : String) : (string s).chars indent = keyChars s := by
  simp [chars, layout, stringText, keyChars]

theorem chars_array_cons : (array (item :: items)).chars depth =
    '[' :: ((lineBreak (depth + 1)).toList ++ (item.chars (depth + 1) ++
      (itemsChars (depth + 1) items ++ ((lineBreak depth).toList ++ [']'])))) := by
  simp [chars, layout, itemsChars]

theorem chars_object_cons : (object ((name, value) :: members)).chars depth =
    '\x7b' :: ((lineBreak (depth + 1)).toList ++ (keyChars name ++ (':' :: ' ' ::
      (value.chars (depth + 1) ++ (membersChars (depth + 1) members ++
        ((lineBreak depth).toList ++ ['\x7d'])))))) := by
  simp [chars, layout, membersChars, stringText, keyChars]

theorem itemsChars_cons : itemsChars depth (item :: items) =
    ',' :: ((lineBreak depth).toList ++ (item.chars depth ++ itemsChars depth items)) := by
  simp [chars, layoutItems, itemsChars]

theorem membersChars_cons : membersChars depth ((name, value) :: members) =
    ',' :: ((lineBreak depth).toList ++ (keyChars name ++ (':' :: ' ' ::
      (value.chars depth ++ membersChars depth members)))) := by
  simp [chars, layoutMembers, membersChars, stringText, keyChars]

theorem chars_number_natCast (n : Nat) : (number n).chars depth = Nat.toDigits 10 n := by
  change (Int.repr n).toList = _
  exact Nat.toList_repr

theorem chars_number_negSucc (n : Nat) :
    (number (Int.negSucc n)).chars depth = '-' :: Nat.toDigits 10 (n + 1) := by
  change ("-" ++ (n + 1).repr).toList = _
  rw [String.toList_append, Nat.toList_repr]
  rfl

@[simp] theorem chars_null : null.chars indent = ['n', 'u', 'l', 'l'] := by
  simp [chars, layout]

@[simp] theorem chars_true : (bool true).chars indent = ['t', 'r', 'u', 'e'] := by
  simp [chars, layout]

@[simp] theorem chars_false : (bool false).chars indent = ['f', 'a', 'l', 's', 'e'] := by
  simp [chars, layout]

@[simp] theorem chars_array_nil : (array []).chars indent = ['[', ']'] := by
  simp [chars, layout]

@[simp] theorem chars_object_nil : (object []).chars indent = ['\x7b', '\x7d'] := by
  simp [chars, layout]

theorem chars_head (json : Json) (indent : Nat) :
    ∃ c s, json.chars indent = c :: s ∧ isBlank c = false ∧ c ≠ ']' := by
  cases json with
  | null => exact ⟨_, _, chars_null, by decide⟩
  | bool b =>
    cases b with
    | true => exact ⟨_, _, chars_true, by decide⟩
    | false => exact ⟨_, _, chars_false, by decide⟩
  | number n =>
    cases n with
    | ofNat n =>
      obtain ⟨c, digits, hn, digit⟩ := toDigits_head n
      refine ⟨c, digits, (chars_number_natCast n).trans hn, (isDigit_plain digit).1, ?_⟩
      rintro rfl
      cases digit
    | negSucc n => exact ⟨_, _, chars_number_negSucc n, by decide⟩
  | string s => exact ⟨_, _, chars_string s, by decide⟩
  | array items =>
    cases items with
    | nil => exact ⟨_, _, chars_array_nil, by decide⟩
    | cons item items => exact ⟨_, _, chars_array_cons, by decide⟩
  | object members =>
    cases members with
    | nil => exact ⟨_, _, chars_object_nil, by decide⟩
    | cons member members => exact ⟨_, _, chars_object_cons, by decide⟩

/-! ### Brackets inside each other -/

mutual

def nesting : Json → Nat
  | array items => nestingItems items + 1
  | object members => nestingMembers members + 1
  | _ => 0

def nestingItems : List Json → Nat
  | [] => 0
  | item :: items => max item.nesting (nestingItems items)

def nestingMembers : List (String × Json) → Nat
  | [] => 0
  | (_, value) :: members => max value.nesting (nestingMembers members)

end

/-- How a reading ends, wherever its problem is. -/
def causes (x : Except Misread α) : Except DecodeError α := x.mapError Misread.cause

@[simp] theorem causes_ok (a : α) : causes (.ok a) = .ok a := rfl

theorem causes_eq_ok {x : Except Misread α} : causes x = .ok a ↔ x = .ok a :=
  mapError_eq_ok

theorem causes_bind (x : Except Misread α) (f : α → Except Misread β) :
    causes (x >>= f) = (causes x >>= fun a => causes (f a)) := by
  cases x <;> rfl

theorem causes_map (f : α → β) (x : Except Misread α) : causes (x.map f) = (causes x).map f := by
  cases x <;> rfl

theorem causes_settle (close : List Char → List Char) (x : Except Misread α) :
    causes (x.mapError (Misread.settle close)) = causes x := by
  cases x with
  | ok a => rfl
  | error e =>
    obtain ⟨cause, rest, ahead, placed⟩ := e
    cases placed <;> rfl

/-- A value, unless its text nests deeper than the limit. -/
def within (limit depth : Nat) (a : α) : Except DecodeError α :=
  if depth ≤ limit then .ok a else .error .recursionLimit

theorem within_zero (a : α) : within limit 0 a = .ok a := if_pos (Nat.zero_le limit)

theorem within_succ (a : α) : within (limit + 1) (depth + 1) a = within limit depth a := by
  simp [within]

theorem within_map (f : α → β) (a : α) :
    (within limit depth a).map f = within limit depth (f a) := by
  unfold within
  split <;> rfl

/-- Of two values one after the other, the deeper one decides. -/
theorem within_bind {f : α → Except DecodeError β} (h : f a = within limit depth' b) :
    (within limit depth a >>= f) = within limit (max depth depth') b := by
  unfold within at *
  by_cases first : depth ≤ limit
  · rw [if_pos first, ok_bind, h]
    by_cases second : depth' ≤ limit
    · rw [if_pos second, if_pos (by omega)]
    · rw [if_neg second, if_neg (by omega)]
  · rw [if_neg first, if_neg (by omega)]
    rfl

theorem within_last {f : α → Except DecodeError β} (h : f a = .ok b) :
    (within limit depth a >>= f) = within limit depth b := by
  have last : f a = within limit 0 b := h.trans (within_zero b).symm
  rw [within_bind last, Nat.max_zero]

/-- Wherever the text stands, with blanks in front of it and something that delimits it behind it,
the reader has this outcome and reads no further. -/
def Gives (read : Reader α) (s : List Char) (out : Except DecodeError α) : Prop :=
  ∀ before rest, (∀ c ∈ before, isBlank c = true) → Delimits rest →
    causes (read (before ++ (s ++ rest))) = out.map fun a => (a, rest)

theorem gives_ok {read : Reader α} (h : ∀ before rest, (∀ c ∈ before, isBlank c = true) →
    Delimits rest → read (before ++ (s ++ rest)) = .ok (a, rest)) : Gives read s (.ok a) :=
  fun before rest blank hrest => causes_eq_ok.mpr (h before rest blank hrest)

/-- With so many steps and so many brackets, the reader gives a value back from its layout. -/
def Reads (steps limit : Nat) (read : Reader α) (json : Json) (a : α) : Prop :=
  ∀ indent, (json.chars indent).length < steps →
    Gives read (json.chars indent) (within limit json.nesting a)

theorem Gives.here {read : Reader α} (h : Gives read s (within limit depth a))
    (hrest : Delimits rest) : causes (read (s ++ rest)) = within limit depth (a, rest) := by
  rw [show causes (read (s ++ rest)) = _ from h [] rest (List.forall_mem_nil _) hrest, within_map]

/-! ### Lists -/

theorem delimits_lineBreak (indent : Nat) (s : List Char) :
    Delimits ((lineBreak indent).toList ++ s) := by
  simp [lineBreak, Delimits, isBlank]

theorem delimits_itemsChars (indent outer : Nat) (items : List Json) (s : List Char) :
    Delimits (itemsChars indent items ++ ((lineBreak outer).toList ++ s)) := by
  cases items with
  | nil => exact delimits_lineBreak outer s
  | cons item items =>
    rw [itemsChars_cons]
    exact .inr (.inl rfl)

theorem nextItem_end (first : Bool) (indent : Nat) (rest : List Char) :
    nextItem first ((lineBreak indent).toList ++ ']' :: rest) = .ok (false, ']' :: rest) := by
  rw [nextItem, dropBlanks_lineBreak]
  rfl

theorem nextItem_first (json : Json) (indent : Nat) (rest : List Char) :
    nextItem true ((lineBreak indent).toList ++ (json.chars indent ++ rest)) =
      .ok (true, json.chars indent ++ rest) := by
  obtain ⟨c, s, hc, plain, other⟩ := chars_head json indent
  rw [nextItem, dropBlanks_lineBreak, hc]
  simp [dropBlanks_cons plain]

theorem nextItem_comma (json : Json) (indent : Nat) (rest : List Char) :
    nextItem false (',' :: ((lineBreak indent).toList ++ (json.chars indent ++ rest))) =
      .ok (true, json.chars indent ++ rest) := by
  obtain ⟨c, s, hc, plain, other⟩ := chars_head json indent
  rw [nextItem, dropBlanks_cons rfl, hc]
  simp [dropBlanks_cons plain, other]

theorem readItems_end {read : Reader α} (h : nextItem first s = .ok (false, ']' :: rest)) :
    readItems read (n + 1) first s = .ok ([], rest) := by
  simp only [readItems, h]
  rfl

theorem readItems_next {read : Reader α} (h : nextItem first s = .ok (true, next)) :
    readItems read (n + 1) first s = (do
      let (item, rest) ← read next
      let (items, rest) ← readItems read n false rest
      return (item :: items, rest)) := by
  simp only [readItems, h]
  rfl

theorem length_le_itemsChars (indent : Nat) (items : List Json) :
    items.length ≤ (itemsChars indent items).length := by
  induction items with
  | nil => exact Nat.zero_le _
  | cons item items ih =>
    simp only [itemsChars_cons, List.length_cons, List.length_append]
    omega

theorem readItems_written {read : Reader α} {json : α → Json} {items : List α}
    (hread : ∀ a ∈ items, Reads steps limit read (json a) a)
    (short : (itemsChars indent (items.map json)).length < steps) (fuel : items.length < n)
    (outer : Nat) (rest : List Char) :
    causes (readItems read n false
        (itemsChars indent (items.map json) ++ ((lineBreak outer).toList ++ ']' :: rest))) =
      within limit (nestingItems (items.map json)) (items, rest) := by
  induction items generalizing n with
  | nil =>
    obtain ⟨n, rfl⟩ := Nat.exists_eq_add_one_of_ne_zero (Nat.ne_zero_of_lt fuel)
    rw [List.map_nil, nestingItems, within_zero, causes_eq_ok]
    exact readItems_end (nextItem_end false outer rest)
  | cons a items ih =>
    obtain ⟨n, rfl⟩ := Nat.exists_eq_add_one_of_ne_zero (Nat.ne_zero_of_lt fuel)
    rw [List.forall_mem_cons] at hread
    simp only [List.map_cons, itemsChars_cons, List.cons_append, List.append_assoc,
      List.length_cons, List.length_append] at short fuel ⊢
    rw [readItems_next (nextItem_comma (json a) indent _), causes_bind,
      (hread.1 indent (by omega)).here (delimits_itemsChars indent outer _ _), nestingItems]
    apply within_bind
    dsimp only
    rw [causes_bind, ih hread.2 (by omega) (by omega)]
    exact within_last rfl

theorem Reads.list {read : Reader α} {json : α → Json} {items : List α}
    (hread : ∀ a ∈ items, Reads steps limit read (json a) a) :
    Reads steps (limit + 1) (readList steps (some read)) (array (items.map json)) items := by
  intro indent short before rest blank hrest
  rw [readList, dropBlanks_append blank, within_map, nesting, within_succ]
  cases items with
  | nil =>
    rw [List.map_nil, chars_array_nil] at *
    obtain ⟨n, rfl⟩ := Nat.exists_eq_add_one_of_ne_zero (Nat.ne_zero_of_lt short)
    rw [List.cons_append, dropBlanks_cons rfl, nestingItems, within_zero, causes_eq_ok]
    exact readItems_end rfl
  | cons a items =>
    rw [List.forall_mem_cons] at hread
    simp only [List.map_cons, chars_array_cons, List.cons_append, List.append_assoc,
      List.length_cons, List.length_append] at short ⊢
    rw [dropBlanks_cons rfl]
    obtain ⟨n, rfl⟩ := Nat.exists_eq_add_one_of_ne_zero (Nat.ne_zero_of_lt short)
    have fuel := length_le_itemsChars (indent + 1) (items.map json)
    rw [List.length_map] at fuel
    refine (congrArg causes (readItems_next (nextItem_first (json a) (indent + 1) _))).trans ?_
    rw [causes_bind, (hread.1 (indent + 1) (by omega)).here (delimits_itemsChars _ indent _ _),
      nestingItems]
    apply within_bind
    dsimp only
    rw [List.nil_append, causes_bind, readItems_written hread.2 (by omega) (by omega)]
    exact within_last rfl

end EventScript.Json
