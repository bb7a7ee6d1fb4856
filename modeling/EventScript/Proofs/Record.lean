import EventScript.Node.Decode
import EventScript.Proofs.Layout

/-! Variants and records in the layout of a text, and how the readers go through them. A record is
read member by member into slots; what the slots hold depends only on which names have been seen. -/
namespace EventScript
open Json

namespace Json

theorem scanColon_colon (s : List Char) : scanColon (':' :: s) = .ok s := rfl

theorem Reads.afterBlank {read : Reader α} (h : Reads steps limit read json a) (indent : Nat)
    (short : (json.chars indent).length < steps) (hrest : Delimits rest) :
    causes (read (' ' :: (json.chars indent ++ rest))) = within limit json.nesting (a, rest) := by
  rw [← within_map fun a => (a, rest)]
  exact h indent short [' '] rest (by simp [isBlank]) hrest

/-! ### Variants -/

section

variable {ν α : Type} {ofName? : String → Option ν} {names : List String} {tag : ν}

theorem gives_variant_name {plain : ν → Reader α} {content? : Option (ν → Reader α)} {a : α}
    (hname : ofName? name = some tag) (hplain : ∀ rest, plain tag rest = .ok (a, rest)) :
    Gives (readVariant ofName? names plain content?) (keyChars name) (.ok a) := by
  intro before rest blank _
  have key := scanString_stringText name rest
  rw [readVariant, dropBlanks_append blank]
  simp [keyChars, dropBlanks_cons, isBlank, key, hname, hplain, pure, Except.pure, Except.map]

theorem Reads.variant {plain : ν → Reader α} {content : ν → Reader α} {a : α}
    (hname : ofName? name = some tag)
    (hread : Reads steps limit (content tag) json a) :
    Reads steps (limit + 1) (readVariant ofName? names plain (some content))
      (object [(name, json)]) a := by
  intro indent short before rest blank hrest
  simp only [chars_object_cons, List.length_cons, List.length_append] at short
  have key := scanString_stringText name
    (':' :: ' ' :: (json.chars (indent + 1) ++ ((lineBreak indent).toList ++ '\x7d' :: rest)))
  have value := hread.afterBlank (indent + 1) (by omega)
    (delimits_lineBreak indent ('\x7d' :: rest))
  rw [readVariant, dropBlanks_append blank]
  simp only [chars_object_cons, keyChars, membersChars, layoutMembers, String.toList_empty,
    List.nil_append, List.cons_append, List.append_assoc, isBlank, Char.reduceEq, decide_false,
    Bool.or_self, dropBlanks_cons, dropBlanks_lineBreak, key, ok_bind, hname, pure_bind,
    scanColon_colon]
  rw [causes_bind, value, within_map, nesting, within_succ, nestingMembers, nestingMembers,
    Nat.max_zero]
  refine within_last ?_
  simp [dropBlanks_cons, isBlank, pure, Except.pure]

end

end Json

/-! ### Slots -/

abbrev Member := (field : Field) × field.shape.Value

def Member.name (m : Member) : String := m.1.name

def Values.members : (fields : List Field) → Values fields → List Member
  | [], () => []
  | field :: fields, (value, values) => ⟨field, value⟩ :: Values.members fields values

namespace Slots

/-- The slots of a record of which the fields with these names have been read. -/
def having (seen : List String) : (fields : List Field) → Values fields → Slots fields
  | [], () => ()
  | field :: fields, (value, values) =>
      (if field.name ∈ seen then some value else none, having seen fields values)

theorem having_nil (fields : List Field) (values : Values fields) :
    having [] fields values = empty fields := by
  induction fields with
  | nil => rfl
  | cons field fields ih => simp [having, empty, ih]

theorem having_cons_of_not_mem {fields : List Field} (h : name ∉ fields.map Field.name)
    (seen : List String) (values : Values fields) :
    having (name :: seen) fields values = having seen fields values := by
  induction fields with
  | nil => rfl
  | cons field fields ih =>
    rw [List.map_cons, List.mem_cons, not_or] at h
    simp [having, ih h.2, Ne.symm h.1]

theorem complete_having {fields : List Field} {seen : List String}
    (h : ∀ field ∈ fields, field.name ∈ seen) (values : Values fields) :
    (having seen fields values).complete rest fields = .ok values := by
  induction fields with
  | nil => rfl
  | cons field fields ih =>
    rw [List.forall_mem_cons] at h
    simp only [having, complete, h.1, ih h.2, if_true]
    rfl

theorem name_mem_of_mem_members {fields : List Field} {values : Values fields} {m : Member}
    (h : m ∈ Values.members fields values) : m.name ∈ fields.map Field.name := by
  induction fields with
  | nil => cases h
  | cons field fields ih =>
    rw [Values.members, List.mem_cons] at h
    rcases h with rfl | h
    · exact List.mem_cons_self
    · exact List.mem_cons_of_mem _ (ih h)

/-- A member that has not been seen goes into its slot. -/
theorem fill_having {read : (shape : Shape) → Reader shape.Value} {fields : List Field}
    {values : Values fields} {m : Member} (distinct : (fields.map Field.name).Nodup)
    (known : m ∈ Values.members fields values) (new : m.name ∉ seen)
    (hread : causes (read m.1.shape s) = within limit depth (m.2, rest)) :
    causes (fill steps read m.name fields (having seen fields values) (':' :: s)) =
      within limit depth (having (m.name :: seen) fields values, rest) := by
  induction fields with
  | nil => cases known
  | cons field fields ih =>
    obtain ⟨value, values⟩ := values
    rw [List.map_cons, List.nodup_cons] at distinct
    rw [Values.members, List.mem_cons] at known
    rcases known with rfl | known
    · have tail := having_cons_of_not_mem distinct.1 seen values
      simp only [Member.name] at *
      simp only [having, fill, new, if_true, if_false, List.mem_cons_self, tail, scanColon_colon,
        ok_bind, causes_bind, hread]
      exact within_last rfl
    · have other : field.name ≠ m.name := by
        intro same
        exact distinct.1 (same ▸ name_mem_of_mem_members known)
      simp only [having, fill, other, if_false, List.mem_cons, false_or, causes_bind,
        ih distinct.2 known]
      exact within_last rfl

end Slots

/-! ### Records -/

section

variable {read : (shape : Shape) → Reader shape.Value} {fields : List Field}

theorem readMembers_end {slots : Slots fields} (h : nextKey first s = .ok (false, rest))
    (hdone : slots.complete rest fields = .ok values) :
    readMembers steps read fields (n + 1) first slots s = .ok (values, rest) := by
  simp only [readMembers, h, ok_bind, hdone]
  rfl

theorem nextKey_end (first : Bool) (indent : Nat) (rest : List Char) :
    nextKey first ((lineBreak indent).toList ++ '\x7d' :: rest) = .ok (false, rest) := by
  rw [nextKey, dropBlanks_lineBreak]
  rfl

theorem nextKey_first (indent : Nat) (rest : List Char) :
    nextKey true ((lineBreak indent).toList ++ '"' :: rest) = .ok (true, rest) := by
  rw [nextKey, dropBlanks_lineBreak]
  rfl

theorem nextKey_comma (indent : Nat) (rest : List Char) :
    nextKey false (',' :: ((lineBreak indent).toList ++ '"' :: rest)) = .ok (true, rest) := by
  simp [nextKey, dropBlanks_cons, isBlank]

theorem delimits_membersChars (indent outer : Nat) (members : List (String × Json))
    (s : List Char) :
    Delimits (membersChars indent members ++ ((lineBreak outer).toList ++ s)) := by
  cases members with
  | nil => exact delimits_lineBreak outer s
  | cons member members =>
    rw [membersChars_cons]
    exact .inr (.inl rfl)

theorem readMembers_next {values : Values fields} {m : Member}
    (distinct : (fields.map Field.name).Nodup) (known : m ∈ Values.members fields values)
    (new : m.name ∉ seen) (hread : Reads steps limit (read m.1.shape) json m.2)
    (short : (json.chars indent).length < steps) (hrest : Delimits rest)
    (h : nextKey first s = .ok (true, m.name.toList.flatMap stringChar ++
      '"' :: ':' :: ' ' :: (json.chars indent ++ rest)))
    (next : causes (readMembers steps read fields n false
      (Slots.having (m.name :: seen) fields values) rest) = within limit depth out) :
    causes (readMembers steps read fields (n + 1) first (Slots.having seen fields values) s) =
      within limit (max json.nesting depth) out := by
  simp only [readMembers, h, ok_bind, scanString_stringText, causes_bind]
  rw [Slots.fill_having distinct known new (hread.afterBlank indent short hrest)]
  exact within_bind next

/-- The members of an object, with the text of each value given by a function. -/
def layoutOf (json : Member → Json) (ms : List Member) : List (String × Json) :=
  ms.map fun m => (m.name, json m)

theorem length_le_membersChars (indent : Nat) (members : List (String × Json)) :
    members.length ≤ (membersChars indent members).length := by
  induction members with
  | nil => exact Nat.zero_le _
  | cons member members ih =>
    obtain ⟨name, value⟩ := member
    simp only [membersChars_cons, List.length_cons, List.length_append]
    omega

theorem readMembers_written {values : Values fields} {json : Member → Json} {ms : List Member}
    (distinct : (fields.map Field.name).Nodup)
    (known : ∀ m ∈ ms, m ∈ Values.members fields values) (once : (ms.map Member.name).Nodup)
    (new : ∀ m ∈ ms, m.name ∉ seen)
    (hread : ∀ m ∈ ms, Reads steps limit (read m.1.shape) (json m) m.2)
    (hdone : ∀ all, (∀ m ∈ ms, m.name ∈ all) → (∀ name ∈ seen, name ∈ all) →
      (Slots.having all fields values).complete rest fields = .ok values)
    (short : (membersChars indent (layoutOf json ms)).length < steps) (fuel : ms.length < n)
    (outer : Nat) :
    causes (readMembers steps read fields n false (Slots.having seen fields values)
        (membersChars indent (layoutOf json ms) ++ ((lineBreak outer).toList ++ '\x7d' :: rest))) =
      within limit (nestingMembers (layoutOf json ms)) (values, rest) := by
  induction ms generalizing n seen with
  | nil =>
    obtain ⟨n, rfl⟩ := Nat.exists_eq_add_one_of_ne_zero (Nat.ne_zero_of_lt fuel)
    rw [layoutOf, List.map_nil, nestingMembers, within_zero, causes_eq_ok]
    exact readMembers_end (nextKey_end false outer rest) (hdone seen (by simp) (by simp))
  | cons m ms ih =>
    obtain ⟨n, rfl⟩ := Nat.exists_eq_add_one_of_ne_zero (Nat.ne_zero_of_lt fuel)
    rw [List.forall_mem_cons] at known new hread
    rw [List.map_cons, List.nodup_cons] at once
    simp only [layoutOf, List.map_cons, membersChars_cons, keyChars, List.cons_append,
      List.append_assoc, List.nil_append, List.length_cons, List.length_append] at short fuel ih ⊢
    rw [nestingMembers]
    refine readMembers_next distinct known.1 new.1 hread.1 (by omega)
      (delimits_membersChars indent outer _ _) (nextKey_comma indent _) ?_
    refine ih known.2 once.2 ?_ hread.2 ?_ (by omega) (by omega)
    · intro m' hm' seen'
      rcases List.mem_cons.mp seen' with same | seen'
      · exact once.1 (same ▸ List.mem_map_of_mem hm')
      · exact new.2 m' hm' seen'
    · intro all hms hseen
      rw [List.forall_mem_cons] at hseen
      exact hdone all (List.forall_mem_cons.mpr ⟨hseen.1, hms⟩) hseen.2

/-- An object with members of a record that suffice to complete it, in whatever order. -/
theorem Json.Reads.members {record : Record} {values : Values record.fields} {json : Member → Json}
    {ms : List Member} (distinct : (record.fields.map Field.name).Nodup)
    (known : ∀ m ∈ ms, m ∈ Values.members record.fields values)
    (once : (ms.map Member.name).Nodup)
    (hread : ∀ m ∈ ms, Reads steps limit (read m.1.shape) (json m) m.2)
    (hdone : ∀ all rest, (∀ m ∈ ms, m.name ∈ all) →
      (Slots.having all record.fields values).complete rest record.fields = .ok values) :
    Reads steps (limit + 1) (readRecord steps record (some read)) (object (layoutOf json ms))
      values := by
  intro indent short before rest blank _
  obtain ⟨n, rfl⟩ := Nat.exists_eq_add_one_of_ne_zero (Nat.ne_zero_of_lt short)
  rw [readRecord, dropBlanks_append blank, within_map, nesting, within_succ,
    ← Slots.having_nil record.fields values]
  cases ms with
  | nil =>
    rw [layoutOf, List.map_nil, chars_object_nil, nestingMembers, within_zero, List.cons_append,
      dropBlanks_cons rfl]
    refine (causes_settle afterObject _).trans (causes_eq_ok.mpr ?_)
    exact readMembers_end rfl (hdone [] rest (List.forall_mem_nil _))
  | cons m ms =>
    rw [List.forall_mem_cons] at known hread
    rw [List.map_cons, List.nodup_cons] at once
    simp only [layoutOf, List.map_cons, chars_object_cons, keyChars, List.cons_append,
      List.append_assoc, List.nil_append, List.length_cons, List.length_append] at short ⊢
    have fuel := length_le_membersChars (indent + 1) (layoutOf json ms)
    rw [layoutOf, List.length_map] at fuel
    rw [dropBlanks_cons rfl, nestingMembers]
    refine (causes_settle afterObject _).trans ?_
    refine readMembers_next distinct known.1 List.not_mem_nil hread.1 (by omega)
      (delimits_membersChars (indent + 1) indent _ _) (nextKey_first (indent + 1) _) ?_
    refine readMembers_written distinct known.2 once.2 ?_ hread.2 ?_ (by rw [layoutOf]; omega)
      (by omega) indent
    · intro m' hm' same
      exact once.1 (List.mem_singleton.mp same ▸ List.mem_map_of_mem hm')
    · intro all hms hm
      exact hdone all rest (List.forall_mem_cons.mpr ⟨List.forall_mem_singleton.mp hm, hms⟩)

theorem map_name_members (values : Values fields) :
    (Values.members fields values).map Member.name = fields.map Field.name := by
  induction fields with
  | nil => rfl
  | cons field fields ih =>
    rw [Values.members, List.map_cons, List.map_cons, ih]
    rfl

theorem Json.Reads.record {record : Record} {values : Values record.fields} {json : Member → Json}
    (distinct : (record.fields.map Field.name).Nodup)
    (hread : ∀ m ∈ Values.members record.fields values,
      Reads steps limit (read m.1.shape) (json m) m.2) :
    Reads steps (limit + 1) (readRecord steps record (some read))
      (object (layoutOf json (Values.members record.fields values))) values := by
  refine .members distinct (fun _ => id) ?_ hread ?_
  · rw [map_name_members]
    exact distinct
  · intro all rest hall
    apply Slots.complete_having
    intro field hfield
    have hname : field.name ∈ (Values.members record.fields values).map Member.name := by
      rw [map_name_members]
      exact List.mem_map_of_mem hfield
    obtain ⟨m, hm, same⟩ := List.mem_map.mp hname
    exact same ▸ hall m hm

end

end EventScript
