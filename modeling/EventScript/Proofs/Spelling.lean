import EventScript.Proofs.Grammar
import EventScript.Proofs.Nesting
import Mathlib.Data.List.ReduceOption

/-! The same tree in other spellings. A record may have its fields in any order, nulls left out and
fields added that it does not know, or be the array of its values; blanks may stand between any two
tokens. The text that is written for a tree is one of its spellings. -/
namespace EventScript
open Json

namespace Json

def Added (known : List String) (s : List Char) : Prop :=
  ∃ name, name ∉ known ∧ Keyed (Spelled name) Valid s

/-- What stands between two commas of a record: one of its members, or a field that was added. -/
def RecordEntry (value : String × Json → List Char → Prop) (members : List (String × Json)) :
    Option (String × Json) → List Char → Prop
  | some m => Keyed (Spelled m.1) (value m)
  | none => Added (members.map Prod.fst)

/-- The spellings of a record, given those of its values. -/
def SpellsRecord (value : String × Json → List Char → Prop) (members : List (String × Json))
    (s : List Char) : Prop :=
  Bracket.list.Encloses (members.map value) s ∨
    ∃ (entries : List (Option (String × Json))) (omitted : List (String × Json)),
      (entries.reduceOption ++ omitted).Perm members ∧ (∀ m ∈ omitted, m.2 = null) ∧
      Bracket.object.Encloses (entries.map (RecordEntry value members)) s

/-- The spellings of a value with at most so many brackets open at a time, those in fields that were
added apart. An object is a record, or else it names a variant: so does the one under `kind`. -/
def Spells : (limit : Nat) → (variant : Bool) → Json → List Char → Prop
  | limit + 1, _, array items => Bracket.list.Encloses (items.map (Spells limit false))
  | limit + 1, true, object members =>
      Bracket.object.Encloses (members.map fun m => Keyed (Spelled m.1) (Spells limit false m.2))
  | limit + 1, false, object members =>
      SpellsRecord (fun m => Spells limit (m.1 == "kind") m.2) members
  | _, _, flat => fun s => flat.nesting = 0 ∧ s = flat.chars 0

theorem Spells.flat {limit : Nat} (h : Spells limit variant json s) (flat : json.nesting = 0) :
    s = json.chars 0 := by
  cases json with
  | array items => cases flat
  | object members => cases flat
  | _ => cases limit <;> exact h.2

theorem Spells.flat_of_zero (h : Spells 0 variant json s) : json.nesting = 0 := by
  cases json <;> exact h.1

theorem Spells.opens {limit : Nat} (h : Spells limit variant json s) (deep : json.nesting ≠ 0) :
    ∃ (b : Bracket) (rest : List Char), s = b.left :: rest := by
  cases limit with
  | zero => cases json <;> exact absurd h.1 deep
  | succ limit =>
    cases json with
    | array items =>
      obtain ⟨inside, -, rfl⟩ := h
      exact ⟨.list, _, rfl⟩
    | object members =>
      cases variant with
      | true =>
        obtain ⟨inside, -, rfl⟩ := h
        exact ⟨.object, _, rfl⟩
      | false =>
        rcases h with ⟨inside, -, rfl⟩ | ⟨_, _, _, _, inside, -, rfl⟩
        · exact ⟨.list, _, rfl⟩
        · exact ⟨.object, _, rfl⟩
    | _ => exact absurd h.1 deep

theorem Spells.begins {limit : Nat} (h : Spells limit variant json s) : Begins .list s := by
  by_cases flat : json.nesting = 0
  · rw [h.flat flat]
    exact json.chars_head 0
  · obtain ⟨b, rest, rfl⟩ := h.opens flat
    exact ⟨_, _, rfl, b.isBlank_left, by cases b <;> decide⟩

/-! ### The layout as a spelling -/

theorem denotes_stringChar (h : Denotes cs s) (c : Char) :
    Denotes (c :: cs) (stringChar c ++ s) := by
  unfold stringChar
  split
  case h_8 quote backslash _ _ _ _ _ =>
    split
    · rename_i control
      have unit := Denotes.unit (codeUnit?_control control) (by simp [isLeading]; omega)
        (by simp [isTrailing]; omega) h
      rwa [Char.ofNat_toNat] at unit
    · rename_i plain
      exact .verbatim ⟨quote, backslash, Nat.not_lt.mp plain⟩ h
  all_goals exact .escape rfl h

theorem spelled_keyChars (name : String) : Spelled name (keyChars name) := by
  refine ⟨_, ?_, rfl⟩
  induction name.toList with
  | nil => exact .nil
  | cons c cs ih =>
    rw [List.flatMap_cons]
    exact denotes_stringChar ih c

theorem blank_lineBreak (indent : Nat) : Blank (lineBreak indent).toList := by
  simp [Blank, lineBreak, isBlank, List.mem_replicate]

theorem separated_itemsChars {P : Json → List Char → Prop} {items : List Json} {indent : Nat}
    (h : ∀ item ∈ items, P item (item.chars indent)) (outer : Nat) :
    Separated false (items.map P) (itemsChars indent items ++ (lineBreak outer).toList) := by
  induction items with
  | nil => exact .done (blank_lineBreak outer)
  | cons item items ih =>
    rw [List.forall_mem_cons] at h
    rw [itemsChars_cons, List.map_cons]
    have rest : Separated false _ ([] ++ ',' :: _) :=
      .next .nil (blank_lineBreak indent) h.1 (ih h.2)
    simpa using rest

theorem keyed_chars {V : List Char → Prop} (name : String) (h : V value) :
    Keyed (Spelled name) V (keyChars name ++ (':' :: ' ' :: value)) :=
  ⟨_, [], [' '], value, spelled_keyChars name, .nil, by simp [Blank, isBlank], h, rfl⟩

theorem separated_membersChars {P : String × Json → List Char → Prop}
    {members : List (String × Json)} {indent : Nat}
    (h : ∀ m ∈ members, P m (m.2.chars indent)) (outer : Nat) :
    Separated false (members.map fun m => Keyed (Spelled m.1) (P m))
      (membersChars indent members ++ (lineBreak outer).toList) := by
  induction members with
  | nil => exact .done (blank_lineBreak outer)
  | cons m members ih =>
    obtain ⟨name, value⟩ := m
    rw [List.forall_mem_cons] at h
    rw [membersChars_cons, List.map_cons]
    have entry := keyed_chars name h.1
    have rest : Separated false _ ([] ++ ',' :: _) :=
      .next .nil (blank_lineBreak indent) entry (ih h.2)
    simpa using rest

theorem encloses_array {P : Json → List Char → Prop} {items : List Json} {indent : Nat}
    (h : ∀ item ∈ items, P item (item.chars (indent + 1))) :
    Bracket.list.Encloses (items.map P) ((array items).chars indent) := by
  cases items with
  | nil => exact ⟨[], .done .nil, chars_array_nil⟩
  | cons item items =>
    rw [List.forall_mem_cons] at h
    refine ⟨_, .start (blank_lineBreak (indent + 1)) h.1 (separated_itemsChars h.2 indent), ?_⟩
    simp [chars_array_cons, Bracket.left, Bracket.right]

theorem encloses_object {P : String × Json → List Char → Prop} {members : List (String × Json)}
    {indent : Nat} (h : ∀ m ∈ members, P m (m.2.chars (indent + 1))) :
    Bracket.object.Encloses (members.map fun m => Keyed (Spelled m.1) (P m))
      ((object members).chars indent) := by
  cases members with
  | nil => exact ⟨[], .done .nil, chars_object_nil⟩
  | cons m members =>
    obtain ⟨name, value⟩ := m
    rw [List.forall_mem_cons] at h
    refine ⟨_, .start (blank_lineBreak (indent + 1)) (keyed_chars name h.1)
      (separated_membersChars h.2 indent), ?_⟩
    simp [chars_object_cons, Bracket.left, Bracket.right]

theorem chars_flat {json : Json} (flat : json.nesting = 0) (indent : Nat) :
    json.chars indent = json.chars 0 := by
  cases json with
  | array items => cases flat
  | object members => cases flat
  | bool b => cases b <;> simp
  | _ => simp [chars, layout]

theorem nesting_le_items {items : List Json} (h : item ∈ items) :
    item.nesting ≤ nestingItems items := by
  induction items with
  | nil => cases h
  | cons first items ih =>
    rw [nestingItems]
    rcases List.mem_cons.mp h with rfl | h
    · exact Nat.le_max_left _ _
    · exact Nat.le_trans (ih h) (Nat.le_max_right _ _)

theorem nesting_le_members {members : List (String × Json)} (h : m ∈ members) :
    m.2.nesting ≤ nestingMembers members := by
  induction members with
  | nil => cases h
  | cons first members ih =>
    rw [nestingMembers]
    rcases List.mem_cons.mp h with rfl | h
    · exact Nat.le_max_left _ _
    · exact Nat.le_trans (ih h) (Nat.le_max_right _ _)

theorem spells_chars {limit : Nat} {json : Json} (h : json.nesting ≤ limit) (variant : Bool)
    (indent : Nat) : Spells limit variant json (json.chars indent) := by
  induction limit generalizing json variant indent with
  | zero =>
    have flat : json.nesting = 0 := Nat.le_zero.mp h
    cases json with
    | array items => cases flat
    | object members => cases flat
    | _ => exact ⟨flat, chars_flat flat indent⟩
  | succ limit ih =>
    cases json with
    | array items =>
      have inner := Nat.le_of_succ_le_succ h
      exact encloses_array fun item hitem =>
        ih (Nat.le_trans (nesting_le_items hitem) inner) false _
    | object members =>
      have inner := Nat.le_of_succ_le_succ h
      have values (m) (hm : m ∈ members) (variant : Bool) :=
        ih (Nat.le_trans (nesting_le_members hm) inner) variant (indent + 1)
      cases variant with
      | true => exact encloses_object fun m hm => values m hm false
      | false =>
        refine .inr ⟨members.map some, [], ?_, List.forall_mem_nil _, ?_⟩
        · simp [List.reduceOption, List.filterMap_map]
        · rw [List.map_map]
          exact encloses_object fun m hm => values m hm (m.1 == "kind")
    | _ => exact ⟨rfl, chars_flat rfl indent⟩

end Json

namespace Node

/-- The texts that spell a tree, with at most 127 brackets open at a time. -/
def SpelledBy (t : Node) (text : String) : Prop :=
  Separated true [Spells 127 false t.toJson] text.toList

theorem spelledBy_toText {t : Node} (h : t.depth ≤ 127) : t.SpelledBy t.toText := by
  have spelled : Spells 127 false t.toJson (t.toJson.chars 0) :=
    spells_chars (by rwa [nesting_toJson]) false 0
  have text : t.toText.toList = [] ++ (t.toJson.chars 0 ++ []) := by
    rw [toText, text_eq, List.append_nil]
    rfl
  rw [SpelledBy, text]
  exact .start .nil spelled (.done .nil)

end Node

end EventScript
