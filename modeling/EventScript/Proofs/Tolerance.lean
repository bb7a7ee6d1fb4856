import EventScript.Proofs.RoundTrip
import EventScript.Proofs.Spelling

/-! A tree is read from each of its spellings. The readers go through pieces between commas,
whatever blanks stand around them; fields are put into their slots in the order in which they come,
and those that nobody knows are passed over. -/
namespace EventScript
open Json

namespace Json

/-! ### Going through pieces -/

theorem Separated.length_le (h : Separated first Ps s) : Ps.length ≤ s.length + first.toNat := by
  induction h with
  | done => exact Nat.zero_le _
  | start _ _ _ ih =>
    simp only [List.length_append, List.length_cons, Bool.toNat_true, Bool.toNat_false] at ih ⊢
    omega
  | next _ _ _ _ ih =>
    simp only [List.length_append, List.length_cons, Bool.toNat_false] at ih ⊢
    omega

theorem Separated.blank (h : Separated first [] s) : Blank s := by
  cases h with
  | done blank => exact blank

theorem nextItem_close (blank : Blank s) (first : Bool) (rest : List Char) :
    nextItem first (s ++ ']' :: rest) = .ok (false, ']' :: rest) := by
  rw [nextItem, blank.drop rfl]
  rfl

theorem nextItem_piece (begins : Begins .list piece) (blank : Blank before) (rest : List Char) :
    nextItem true (before ++ (piece ++ rest)) = .ok (true, piece ++ rest) := by
  obtain ⟨c, s, rfl, plain, goes⟩ := begins
  rw [nextItem, List.cons_append, blank.drop plain]
  simp [show c ≠ ']' from goes]

theorem nextItem_gap (begins : Begins .list piece) (blank : Blank gap) (hbefore : Blank before)
    (rest : List Char) :
    nextItem false (gap ++ ',' :: (before ++ (piece ++ rest))) = .ok (true, piece ++ rest) := by
  obtain ⟨c, s, rfl, plain, goes⟩ := begins
  rw [nextItem, blank.drop rfl]
  simp [hbefore.drop plain, show c ≠ ']' from goes]

theorem Separated.nextItem (h : Separated first (P :: Ps) s) (begins : ∀ s, P s → Begins .list s) :
    ∃ piece after, P piece ∧ Separated false Ps after ∧ piece.length + after.length ≤ s.length ∧
      ∀ rest, nextItem first (s ++ rest) = .ok (true, piece ++ (after ++ rest)) := by
  cases h with
  | @start _ _ before piece after hbefore hpiece hafter =>
    refine ⟨piece, after, hpiece, hafter, ?_, fun rest => ?_⟩
    · simp only [List.length_append]
      omega
    · simp only [List.append_assoc]
      exact nextItem_piece (begins piece hpiece) hbefore _
  | @next _ _ gap before piece after hgap hbefore hpiece hafter =>
    refine ⟨piece, after, hpiece, hafter, ?_, fun rest => ?_⟩
    · simp only [List.length_append, List.length_cons]
      omega
    · simp only [List.append_assoc, List.cons_append]
      exact nextItem_gap (begins piece hpiece) hgap hbefore _

theorem nextKey_close (blank : Blank s) (first : Bool) (rest : List Char) :
    nextKey first (s ++ '\x7d' :: rest) = .ok (false, rest) := by
  rw [nextKey, blank.drop rfl]
  rfl

theorem Separated.nextKey (h : Separated first (P :: Ps) s)
    (quotes : ∀ s, P s → ∃ rest, s = '"' :: rest) :
    ∃ piece after, P ('"' :: piece) ∧ Separated false Ps after ∧
      piece.length + after.length < s.length ∧
      ∀ rest, nextKey first (s ++ rest) = .ok (true, piece ++ (after ++ rest)) := by
  cases h with
  | @start _ _ before piece after hbefore hpiece hafter =>
    obtain ⟨piece, rfl⟩ := quotes piece hpiece
    refine ⟨piece, after, hpiece, hafter, ?_, fun rest => ?_⟩
    · simp only [List.length_append, List.length_cons]
      omega
    · simp only [List.append_assoc, List.cons_append]
      rw [Json.nextKey, hbefore.drop rfl]
      rfl
  | @next _ _ gap before piece after hgap hbefore hpiece hafter =>
    obtain ⟨piece, rfl⟩ := quotes piece hpiece
    refine ⟨piece, after, hpiece, hafter, ?_, fun rest => ?_⟩
    · simp only [List.length_append, List.length_cons]
      omega
    · simp only [List.append_assoc, List.cons_append]
      rw [Json.nextKey, hgap.drop rfl]
      simp [hbefore.drop (show isBlank '"' = false from rfl)]

/-! ### Readers on other spellings -/

theorem Gives.after {read : Reader α} (h : Gives read s (.ok a)) (blank : Blank before)
    (hrest : Delimits rest) : read (before ++ (s ++ rest)) = .ok (a, rest) :=
  causes_eq_ok.mp (h before rest blank hrest)

theorem readItems_separated {read : Reader α} {P : α → List Char → Prop} {items : List α}
    (begins : ∀ a ∈ items, ∀ s, P a s → Begins .list s)
    (hread : ∀ a ∈ items, ∀ s, P a s → s.length < steps → Gives read s (.ok a))
    (h : Separated first (items.map P) s) (short : s.length < steps) (fuel : items.length < n)
    (rest : List Char) :
    readItems read n first (s ++ ']' :: rest) = .ok (items, rest) := by
  induction items generalizing n first s with
  | nil =>
    obtain ⟨n, rfl⟩ := Nat.exists_eq_add_one_of_ne_zero (Nat.ne_zero_of_lt fuel)
    exact readItems_end (nextItem_close h.blank first rest)
  | cons a items ih =>
    obtain ⟨n, rfl⟩ := Nat.exists_eq_add_one_of_ne_zero (Nat.ne_zero_of_lt fuel)
    rw [List.forall_mem_cons] at begins hread
    obtain ⟨piece, after, hpiece, hafter, length, next⟩ := Separated.nextItem h begins.1
    have item : read (piece ++ (after ++ ']' :: rest)) = .ok (a, after ++ ']' :: rest) :=
      (hread.1 piece hpiece (by omega)).after .nil (hafter.delimits .list rest)
    rw [readItems_next (next _), item]
    simp only [ok_bind, ih begins.2 hread.2 hafter (by omega) (Nat.lt_of_succ_lt_succ fuel)]
    rfl

theorem Gives.list {read : Reader α} {P : α → List Char → Prop} {items : List α}
    (begins : ∀ a ∈ items, ∀ s, P a s → Begins .list s)
    (hread : ∀ a ∈ items, ∀ s, P a s → s.length < steps → Gives read s (.ok a))
    (h : Bracket.list.Encloses (items.map P) s) (short : s.length < steps) :
    Gives (readList steps (some read)) s (.ok items) := by
  obtain ⟨inside, pieces, rfl⟩ := h
  refine gives_ok fun before rest blank _ => ?_
  have count := pieces.length_le
  simp only [List.length_map, Bool.toNat_true, List.length_cons, List.length_append,
    List.length_nil] at short count
  rw [readList, List.cons_append, Blank.drop blank rfl, List.append_assoc, List.singleton_append]
  exact readItems_separated begins hread pieces (by omega) (by omega) rest

section

variable {ν α : Type} {ofName? : String → Option ν} {names : List String} {tag : ν}

theorem Gives.variant {plain content : ν → Reader α} {a : α}
    {V : List Char → Prop} (hname : ofName? name = some tag)
    (hread : ∀ s, V s → s.length < steps → Gives (content tag) s (.ok a))
    (h : Bracket.object.Encloses [Keyed (Spelled name) V] s) (short : s.length < steps) :
    Gives (readVariant ofName? names plain (some content)) s (.ok a) := by
  obtain ⟨inside, pieces, rfl⟩ := h
  cases pieces with
  | start inner piece after =>
    cases after with
    | done last =>
      obtain ⟨_, gap, ahead, value, key, hgap, hahead, hvalue, rfl⟩ := piece
      obtain ⟨key, rfl, scan⟩ := key.scan
      simp only [List.length_cons, List.length_append] at short
      refine gives_ok fun before rest blank _ => ?_
      have content := (hread value hvalue (by omega)).after hahead
        (last.delimits (Bracket.object.delimits_right rest))
      have quote := inner.drop (show isBlank '"' = false from rfl)
      have closing := last.drop Bracket.object.isBlank_right rest
      rw [readVariant, List.cons_append, Blank.drop blank rfl]
      simp only [Bracket.left, List.cons_append, List.append_assoc, List.nil_append, quote, scan,
        ok_bind, hname, pure_bind, hgap.scanColon, content, closing]
      rfl

end

end Json

/-! ### Records in other spellings -/

namespace Slots

theorem fill_colon {read : (shape : Shape) → Reader shape.Value} (h : scanColon s = .ok rest)
    {fields : List Field} {slots slots' : Slots fields}
    (hfill : fill steps read key fields slots (':' :: rest) = .ok (slots', after)) :
    fill steps read key fields slots s = .ok (slots', after) := by
  induction fields generalizing after with
  | nil =>
    rw [fill, scanColon_colon] at hfill
    rw [fill, h, hfill]
  | cons field fields ih =>
    obtain ⟨slot, slots⟩ := slots
    unfold fill at hfill ⊢
    rw [scanColon_colon] at hfill
    split at hfill
    · rename_i named
      rw [if_pos named, h]
      cases slot with
      | none => exact hfill
      | some value => cases hfill
    · rename_i other
      obtain ⟨⟨filled, left⟩, hrest, hfill⟩ := bind_eq_ok hfill
      rw [if_neg other, ih hrest]
      exact hfill

theorem fill_unknown {read : (shape : Shape) → Reader shape.Value} {fields : List Field}
    (unknown : key ∉ fields.map Field.name) (h : skipOpen steps [] s = .ok rest)
    (slots : Slots fields) :
    fill steps read key fields slots (':' :: s) = .ok (slots, rest) := by
  induction fields with
  | nil =>
    simp only [fill, scanColon_colon, ok_bind, h]
    rfl
  | cons field fields ih =>
    rw [List.map_cons, List.mem_cons, not_or] at unknown
    obtain ⟨slot, slots⟩ := slots
    simp only [fill, if_neg (Ne.symm unknown.1), ih unknown.2]
    rfl

theorem field_mem_of_mem_members {fields : List Field} {values : Values fields} {m : Member}
    (h : m ∈ Values.members fields values) : m.1 ∈ fields := by
  induction fields with
  | nil => cases h
  | cons field fields ih =>
    rw [Values.members, List.mem_cons] at h
    rcases h with rfl | h
    · exact List.mem_cons_self
    · exact List.mem_cons_of_mem _ (ih h)

theorem complete_having_of_absent {fields : List Field} {seen : List String}
    {values : Values fields}
    (h : ∀ m ∈ Values.members fields values,
      m.name ∈ seen ∨ m.1.shape.absent? = some m.2) :
    (having seen fields values).complete rest fields = .ok values := by
  induction fields with
  | nil => rfl
  | cons field fields ih =>
    obtain ⟨value, values⟩ := values
    rw [Values.members, List.forall_mem_cons] at h
    simp only [having, complete, ih h.2]
    by_cases known : field.name ∈ seen
    · rw [if_pos known]
      rfl
    · rw [if_neg known, show field.shape.absent? = some value from h.1.resolve_left known]
      rfl

end Slots

section

variable {read : (shape : Shape) → Reader shape.Value}

/-- The values of a record one after the other. -/
theorem readColumns_separated {record : Record} {P : Member → List Char → Prop}
    {fields : List Field} {values : Values fields}
    (begins : ∀ m ∈ Values.members fields values, ∀ s, P m s → Begins .list s)
    (hread : ∀ m ∈ Values.members fields values, ∀ s, P m s → s.length < steps →
      Gives (read m.1.shape) s (.ok m.2))
    (h : Separated (count = 0) ((Values.members fields values).map P) s)
    (short : s.length < steps) (rest : List Char) :
    ∃ after, Blank after ∧ readColumns read record count fields (s ++ ']' :: rest) =
      .ok (values, after ++ ']' :: rest) := by
  induction fields generalizing count s with
  | nil =>
    exact ⟨s, h.blank, rfl⟩
  | cons field fields ih =>
    obtain ⟨value, values⟩ := values
    rw [Values.members, List.forall_mem_cons] at begins hread
    rw [Values.members, List.map_cons] at h
    obtain ⟨piece, after, hpiece, hafter, length, next⟩ := Separated.nextItem h begins.1
    have item : read field.shape (piece ++ (after ++ ']' :: rest)) =
        .ok (value, after ++ ']' :: rest) :=
      (hread.1 piece hpiece (by omega)).after .nil (hafter.delimits .list rest)
    obtain ⟨last, blank, others⟩ := ih begins.2 hread.2
      (show Separated (decide (count + 1 = 0)) _ after from hafter) (by omega)
    refine ⟨last, blank, ?_⟩
    simp only [readColumns, next, ok_bind, item, others]
    rfl

theorem Json.Keyed.quotes {name : String} (h : Keyed (Spelled name) V s) :
    ∃ rest, s = '"' :: rest := by
  obtain ⟨_, _, _, _, ⟨_, _, rfl⟩, _, _, _, rfl⟩ := h
  exact ⟨_, rfl⟩

theorem Json.Keyed.split {name : String} (h : Keyed (Spelled name) V ('"' :: s)) :
    ∃ ahead value, Blank ahead ∧ V value ∧ value.length ≤ s.length ∧
      ∀ rest, ∃ after, scanString [] (s ++ rest) = .ok (name, after) ∧
        scanColon after = .ok (ahead ++ (value ++ rest)) := by
  obtain ⟨_, gap, ahead, value, key, hgap, hahead, hvalue, same⟩ := h
  obtain ⟨key, rfl, scan⟩ := key.scan
  rw [List.cons_append] at same
  obtain ⟨-, rfl⟩ := List.cons.inj same
  refine ⟨ahead, value, hahead, hvalue, ?_, fun rest => ?_⟩
  · simp only [List.length_append, List.length_cons]
    omega
  · refine ⟨gap ++ ':' :: (ahead ++ (value ++ rest)), ?_, hgap.scanColon _⟩
    simp only [List.append_assoc, List.cons_append, scan]

variable {fields : List Field} {values : Values fields}
  {value : String × Json → List Char → Prop}

/-- The entries of an object in their order. What has been read of it is the fields whose names have
been seen; the fields that never come are the absent ones. -/
theorem readMembers_separated {entries : List (Option (String × Json))}
    {members : List (String × Json)} (distinct : (fields.map Field.name).Nodup)
    (names : members.map Prod.fst = fields.map Field.name)
    (known : ∀ e ∈ entries.reduceOption, ∃ m ∈ Values.members fields values, e = (m.name, m.json))
    (once : (entries.reduceOption.map Prod.fst).Nodup)
    (new : ∀ e ∈ entries.reduceOption, e.1 ∉ seen)
    (hread : ∀ m ∈ Values.members fields values, ∀ s, value (m.name, m.json) s →
      s.length < steps → Gives (read m.1.shape) s (.ok m.2))
    (hdone : ∀ m ∈ Values.members fields values, m.name ∈ seen ∨
      m.name ∈ entries.reduceOption.map Prod.fst ∨ m.1.shape.absent? = some m.2)
    (h : Separated first (entries.map (RecordEntry value members)) s)
    (short : s.length < steps) (fuel : entries.length < n) (rest : List Char) :
    readMembers steps read fields n first (Slots.having seen fields values)
      (s ++ '\x7d' :: rest) = .ok (values, rest) := by
  induction entries generalizing n first seen s with
  | nil =>
    obtain ⟨n, rfl⟩ := Nat.exists_eq_add_one_of_ne_zero (Nat.ne_zero_of_lt fuel)
    refine readMembers_end (nextKey_close h.blank first rest)
      (Slots.complete_having_of_absent fun m hm => ?_)
    simpa using hdone m hm
  | cons entry entries ih =>
    obtain ⟨n, rfl⟩ := Nat.exists_eq_add_one_of_ne_zero (Nat.ne_zero_of_lt fuel)
    cases entry with
    | none =>
      rw [List.reduceOption_cons_of_none] at known once new hdone
      obtain ⟨piece, after, ⟨name, unknown, keyed⟩, hafter, length, next⟩ :=
        Separated.nextKey h fun s ⟨_, _, keyed⟩ => keyed.quotes
      obtain ⟨ahead, added, hahead, valid, shorter, split⟩ := keyed.split
      obtain ⟨_, scan, colon⟩ := split (after ++ '\x7d' :: rest)
      have delimited : Delimits (after ++ '\x7d' :: rest) := hafter.delimits .object rest
      have skipped := valid.skipOpen (show added.length ≤ steps by omega) hahead delimited
      simp only [readMembers, next, ok_bind, scan]
      rw [Slots.fill_colon colon (Slots.fill_unknown (names ▸ unknown) skipped _)]
      exact ih known once new hdone hafter (by omega) (Nat.lt_of_succ_lt_succ fuel)
    | some e =>
      rw [List.reduceOption_cons_of_some] at known once new hdone
      rw [List.forall_mem_cons] at known new
      rw [List.map_cons, List.nodup_cons] at once
      obtain ⟨m, hm, rfl⟩ := known.1
      obtain ⟨piece, after, keyed, hafter, length, next⟩ :=
        Separated.nextKey h fun s keyed => keyed.quotes
      obtain ⟨ahead, text, hahead, spelled, shorter, split⟩ := keyed.split
      obtain ⟨_, scan, colon⟩ := split (after ++ '\x7d' :: rest)
      have delimited : Delimits (after ++ '\x7d' :: rest) := hafter.delimits .object rest
      have item : causes (read m.1.shape _) = within 0 0 (m.2, after ++ '\x7d' :: rest) :=
        hread m hm text spelled (by omega) ahead _ hahead delimited
      have filled : Slots.fill steps read m.name fields _ _ = .ok (_, after ++ '\x7d' :: rest) :=
        causes_eq_ok.mp ((Slots.fill_having distinct hm new.1 item).trans (within_zero _))
      simp only [readMembers, next, ok_bind, scan]
      rw [Slots.fill_colon colon filled, ok_bind]
      refine ih known.2 once.2 ?_ ?_ hafter (by omega) (Nat.lt_of_succ_lt_succ fuel)
      · intro e he seen'
        rcases List.mem_cons.mp seen' with same | seen'
        · exact once.1 (List.mem_map.mpr ⟨e, he, same⟩)
        · exact new.2 e he seen'
      · intro m' hm'
        have := hdone m' hm'
        rw [List.map_cons, List.mem_cons] at this
        rw [List.mem_cons]
        tauto

end

/-- A record in any of its spellings. -/
theorem Json.Gives.record {read : (shape : Shape) → Reader shape.Value} {record : Record}
    {values : Values record.fields} {value : String × Json → List Char → Prop}
    (distinct : (record.fields.map Field.name).Nodup)
    (begins : ∀ m s, value m s → Begins .list s)
    (hread : ∀ m ∈ Values.members record.fields values, ∀ s, value (m.name, m.json) s →
      s.length < steps → Gives (read m.1.shape) s (.ok m.2))
    (habsent : ∀ m ∈ Values.members record.fields values, m.json = .null →
      m.1.shape.absent? = some m.2)
    (h : SpellsRecord value (layoutOf Member.json (Values.members record.fields values)) s)
    (short : s.length < steps) :
    Gives (readRecord steps record (some read)) s (.ok values) := by
  rcases h with ⟨inside, pieces, rfl⟩ | ⟨entries, omitted, perm, nulls, inside, pieces, rfl⟩
  · refine gives_ok fun before rest blank _ => ?_
    simp only [List.length_cons, List.length_append, List.length_nil] at short
    rw [layoutOf, List.map_map] at pieces
    obtain ⟨after, hafter, columns⟩ : ∃ after, Blank after ∧
        readColumns read record 0 record.fields (inside ++ ']' :: rest) =
          .ok (values, after ++ ']' :: rest) :=
      readColumns_separated (fun m _ => begins _) hread
        (show Separated (decide (0 = 0)) _ inside from pieces) (by omega) rest
    have closing : closeArray (after ++ ']' :: rest) = .ok rest := by
      rw [closeArray, hafter.drop rfl]
      rfl
    rw [readRecord, List.cons_append, Blank.drop blank rfl, List.append_assoc,
      List.singleton_append]
    simp only [Bracket.left, Bracket.right, mapError_eq_ok.mpr columns, ok_bind, closing]
    rfl
  · refine gives_ok fun before rest blank _ => ?_
    have names : (layoutOf Member.json (Values.members record.fields values)).map Prod.fst =
        record.fields.map Field.name := by
      rw [layoutOf, List.map_map, ← map_name_members values]
      rfl
    have once := (perm.map Prod.fst).nodup_iff.mpr (names ▸ distinct)
    rw [List.map_append, List.nodup_append] at once
    have count := pieces.length_le
    simp only [List.length_map, Bool.toNat_true, List.length_cons, List.length_append,
      List.length_nil] at short count
    rw [readRecord, List.cons_append, Blank.drop blank rfl, List.append_assoc,
      List.singleton_append]
    refine mapError_eq_ok.mpr ?_
    rw [← Slots.having_nil record.fields values]
    refine readMembers_separated distinct names ?_ once.1 (by simp) hread ?_ pieces (by omega)
      (by omega) rest
    · intro e he
      obtain ⟨m, hm, rfl⟩ := List.mem_map.mp (perm.mem_iff.mp (List.mem_append_left omitted he))
      exact ⟨m, hm, rfl⟩
    · intro m hm
      have listed := perm.mem_iff.mpr (List.mem_map.mpr ⟨m, hm, rfl⟩)
      rcases List.mem_append.mp listed with known | null
      · exact .inr (.inl (List.mem_map.mpr ⟨_, known, rfl⟩))
      · exact .inr (.inr (habsent m hm (nulls _ null)))

/-! ### Shapes in other spellings -/

namespace Json

theorem Gives.map {read : Reader α} {f : α × List Char → β × List Char}
    (h : Gives read s (.ok a)) (hf : ∀ rest, f (a, rest) = (b, rest)) :
    Gives (fun s => (read s).map f) s (.ok b) := by
  refine gives_ok fun before rest blank hrest => ?_
  exact (congrArg (Except.map f) (h.after blank hrest)).trans (congrArg Except.ok (hf rest))

theorem Gives.some {read : Reader α} {b : Bracket} (h : Gives read (b.left :: s) (.ok a)) :
    Gives (readOptional read) (b.left :: s) (.ok (some a)) := by
  refine gives_ok fun before rest blank hrest => ?_
  have value : read (b.left :: (s ++ rest)) = .ok (a, rest) := h.after .nil hrest
  rw [readOptional, List.cons_append, Blank.drop blank b.isBlank_left]
  cases b with
  | list => exact congrArg (Except.map _) value
  | object => exact congrArg (Except.map _) value

end Json

namespace Shape

def isVariant : Shape → Bool
  | body => true
  | _ => false

theorem absent?_of_null {shape : Shape} {value : shape.Value} (built : shape.Built value)
    (h : shape.json value = .null) : shape.absent? = some value := by
  cases shape with
  | maybeWord | maybePosition =>
    cases value with
    | none => rfl
    | some value => cases h
  | maybeNode =>
    cases value with
    | none => rfl
    | some n =>
      rw [json, Node.slotToJson, n.toJson_eq] at h
      cases h
  | node =>
    rw [json, Node.toJson_eq] at h
    cases h
  | body =>
    obtain ⟨kind, values, rfl⟩ := built
    rw [kind.json_body] at h
    cases h
  | payload kind =>
    obtain ⟨values, rfl⟩ := built
    rw [kind.json_payload] at h
    cases h
  | _ => cases h

/-- The reader gives every value back from each of its spellings within the limit. -/
def Tolerant (steps limit : Nat) (read : (shape : Shape) → Reader shape.Value) : Prop :=
  ∀ (shape : Shape) (value : shape.Value) (s : List Char), shape.Built value →
    Spells limit shape.isVariant (shape.json value) s → s.length < steps →
    Gives (read shape) s (.ok value)

variable {inner : (shape : Shape) → Reader shape.Value}

theorem Tolerant.record (h : Tolerant steps limit inner) {record : Record}
    {values : Values record.fields} (distinct : (record.fields.map Field.name).Nodup)
    (tags : ∀ field ∈ record.fields, (field.name == "kind") = field.shape.isVariant)
    (built : ∀ m ∈ Values.members record.fields values, m.1.shape.Built m.2)
    (spelled : Spells (limit + 1) false
      (.object (layoutOf Member.json (Values.members record.fields values))) s)
    (short : s.length < steps) :
    Gives (readRecord steps record (some inner)) s (.ok values) := by
  refine Gives.record distinct (fun m s spelled => spelled.begins) ?_ ?_ spelled short
  · intro m hm s spelled short
    rw [show (m.name == "kind") = _ from tags m.1 (Slots.field_mem_of_mem_members hm)] at spelled
    exact h m.1.shape m.2 s (built m hm) spelled short
  · intro m hm null
    exact absent?_of_null (built m hm) null

theorem Tolerant.position (h : Tolerant steps limit inner) (p : Position)
    (spelled : Spells (limit + 1) false p.toJson s) (short : s.length < steps) :
    Gives (readWith.readPosition steps (some inner)) s (.ok p) := by
  rw [p.toJson_eq] at spelled
  have fields := h.record (by decide) (by decide) (by simp [Values.members, Built]) spelled short
  exact fields.map fun _ => rfl

theorem Tolerant.node (h : Tolerant steps limit inner) (n : Node)
    (spelled : Spells (limit + 1) false n.toJson s) (short : s.length < steps) :
    Gives (readWith.readNode steps (some inner)) s (.ok n) := by
  have built : Shape.body.Built (n.withPosition none) := ⟨n.kind, n.exists_build⟩
  rw [n.toJson_eq] at spelled
  have fields : Gives (readRecord steps Record.node (some inner)) s
      (.ok (n.withPosition none, n.position, ())) :=
    h.record (by decide) (by decide)
      (List.forall_mem_cons.mpr ⟨built, by simp [Values.members, Built]⟩) spelled short
  exact fields.map fun rest => congrArg (·, rest) n.withPosition_position

theorem Tolerant.payload (h : Tolerant steps limit inner) (kind : Kind)
    (values : Values kind.fields)
    (spelled : Spells (limit + 1) false ((Shape.payload kind).json (kind.build values)) s)
    (short : s.length < steps) :
    Gives (Shape.readWith steps (some inner) (.payload kind)) s (.ok (kind.build values)) := by
  have tags : ∀ field ∈ kind.fields, (field.name == "kind") = field.shape.isVariant := by
    cases kind <;> decide
  rw [kind.json_payload] at spelled
  have fields : Gives (readRecord steps kind.record (some inner)) s (.ok values) :=
    h.record kind.distinct_names tags (kind.built_members values) spelled short
  exact fields.map fun _ => rfl

theorem Tolerant.body (h : Tolerant steps limit inner) (kind : Kind) (values : Values kind.fields)
    (spelled : Spells (limit + 1) true (Shape.body.json (kind.build values)) s)
    (short : s.length < steps) :
    Gives (Shape.readWith steps (some inner) .body) s (.ok (kind.build values)) := by
  rw [kind.json_body] at spelled
  rw [readWith]
  refine Gives.variant kind.ofName?_name ?_ spelled short
  intro s spelled short
  exact h (.payload kind) _ s ⟨values, rfl⟩ spelled short

theorem Tolerant.list (h : Tolerant steps limit inner) (ns : List Node)
    (spelled : Spells (limit + 1) false (.array (ns.map Node.toJson)) s)
    (short : s.length < steps) :
    Gives (readList steps (some (inner .node))) s (.ok ns) := by
  rw [Spells, List.map_map] at spelled
  exact Gives.list (fun n _ s spelled => spelled.begins)
    (fun n _ s spelled short => h .node n s trivial spelled short) spelled short

theorem gives_flat {limit : Nat} {shape : Shape} {value : shape.Value} (built : shape.Built value)
    (flat : (shape.json value).nesting = 0)
    (spelled : Spells limit shape.isVariant (shape.json value) s) (short : s.length < steps) :
    Gives (shape.readWithin steps limit) s (.ok value) := by
  obtain rfl := spelled.flat flat
  have reads := reads_within limit shape value built 0 short
  rwa [flat, within_zero] at reads

theorem tolerant_readWithin (steps limit : Nat) :
    Tolerant steps limit (readWithin steps limit) := by
  induction limit with
  | zero =>
    intro shape value s built spelled short
    exact gives_flat built spelled.flat_of_zero spelled short
  | succ limit ih =>
    intro shape value s built spelled short
    cases shape with
    | position => exact ih.position value spelled short
    | maybePosition =>
      cases value with
      | none => exact gives_flat built rfl spelled short
      | some p =>
        obtain ⟨b, rest, rfl⟩ := spelled.opens (Nat.succ_ne_zero _)
        exact (ih.position p spelled short).some
    | node => exact ih.node value spelled short
    | maybeNode =>
      cases value with
      | none => exact gives_flat built rfl spelled short
      | some n =>
        have deep : n.toJson.nesting ≠ 0 := by
          rw [n.toJson_eq]
          exact Nat.succ_ne_zero _
        obtain ⟨b, rest, rfl⟩ := Spells.opens spelled deep
        exact (ih.node n spelled short).some
    | nodes =>
      rw [json, Node.allToJson_eq] at spelled
      exact ih.list value spelled short
    | body =>
      obtain ⟨kind, values, rfl⟩ := built
      exact ih.body kind values spelled short
    | payload kind =>
      obtain ⟨values, rfl⟩ := built
      exact ih.payload kind values spelled short
    | maybeWord => exact gives_flat built (by cases value <;> rfl) spelled short
    | _ => exact gives_flat built rfl spelled short

end Shape

namespace Node

theorem ofText_of_spelledBy {t : Node} {text : String} (h : t.SpelledBy text) :
    ofText text = .ok t := by
  rw [SpelledBy] at h
  generalize chars : text.toList = s at h
  cases h with
  | @start _ _ before piece after hbefore hpiece hafter =>
    have hafter : Blank after := hafter.blank
    have delimited : Delimits after := by
      simpa using hafter.delimits (show Delimits [] from trivial)
    have short : piece.length < text.toList.length + 1 := by
      rw [chars]
      simp only [List.length_append]
      omega
    have whole := (Shape.tolerant_readWithin _ depthLimit .node t piece trivial hpiece
      short).after hbefore delimited
    have ended : dropBlanks after = [] := by simpa [dropBlanks] using dropBlanks_append hafter []
    rw [← chars] at whole
    rw [ofText, readText, mapError_eq_ok, readWhole, whole, ok_bind]
    simp only [ended]
    rfl

/-- Whichever of its spellings is read, it is the same tree; the text that is written for it is one
of them. -/
theorem ofText_spelling (t : Node) :
    (∀ text, t.SpelledBy text → ofText text = .ok t) ∧ (t.depth ≤ 127 → t.SpelledBy t.toText) :=
  ⟨fun _ => ofText_of_spelledBy, spelledBy_toText⟩

def looseText : String :=
  "\x7b\"note\": [-0.5e+2, \x7b\"\\ud800\": []\x7d ],\n" ++
    "\"kind\" : \x7b\"UnaryArithmetic\": [\"Neg\", " ++
    "\x7b\"location\": [1, 2], \"kind\": \x7b\"Load\": \x7b\"address\": 5\x7d\x7d\x7d ]\x7d\x7d\n"

def looseTree : Node := unary .neg (cell .read 5 (some ⟨1, 2⟩)) none

theorem blank_space : Blank [' '] := by simp [Blank, isBlank]

theorem valid_looseNote : Valid "[-0.5e+2, \x7b\"\\ud800\": []\x7d ]".toList := by
  have digits (c : Char) (h : isDigit c = true) : Digits [c] := ⟨by simp, by simpa using h⟩
  have number : Unsigned _ := ⟨['0'], '.' :: ['5'], 'e' :: (['+'] ++ ['2']), .inl rfl,
    .inr ⟨_, digits '5' rfl, rfl⟩, .inr ⟨_, _, _, by simp, by simp, digits '2' rfl, rfl⟩, rfl⟩
  have item : ValidWithin 2 _ := .inl (.inr (.inr (.inl ⟨_, number, rfl⟩)))
  have surrogate : Quoted StringBody _ :=
    ⟨['\\', 'u', 'd', '8', '0', '0'], .unit (by simp) .nil, rfl⟩
  have empty : ValidWithin 1 _ := .inr ⟨0, .inl ⟨_, .done .nil, rfl⟩⟩
  have object : ValidWithin 2 _ := .inr ⟨1, .inr ⟨_, .start .nil
    ⟨_, [], [' '], _, surrogate, .nil, blank_space, empty, rfl⟩ (.done .nil), rfl⟩⟩
  refine ⟨3, .inr ⟨2, .inl ⟨_, .start .nil item
    (.next .nil blank_space object (.done blank_space)), ?_⟩⟩⟩
  decide +kernel

theorem spells_wordJson (limit : Nat) (n : UInt64) (variant : Bool) :
    Spells limit variant (wordJson n) ((wordJson n).chars 0) :=
  spells_chars (Nat.zero_le limit) variant 0

theorem spelledBy_looseText : looseTree.SpelledBy looseText := by
  have feed : Blank ['\n'] := by simp [Blank, isBlank]
  have place : Spells 123 false (Position.toJson ⟨1, 2⟩) _ :=
    .inl ⟨_, .start .nil (spells_wordJson 122 1 _)
      (.next .nil blank_space (spells_wordJson 122 2 _) (.done .nil)), rfl⟩
  have address : Spells 122 false (.object [("address", wordJson 5)]) _ :=
    .inr ⟨[some _], [], .refl _, List.forall_mem_nil _, _,
      .start .nil (keyed_chars "address" (spells_wordJson 121 5 _)) (.done .nil), rfl⟩
  have load : Spells 123 true (.object [("Load", .object [("address", wordJson 5)])]) _ :=
    ⟨_, .start .nil (keyed_chars "Load" address) (.done .nil), rfl⟩
  have operand : Spells 124 false (cell .read 5 (some ⟨1, 2⟩)).toJson _ :=
    .inr ⟨[some _, some _], [], .swap _ _ [], List.forall_mem_nil _, _,
      .start .nil (keyed_chars "location" place)
        (.next .nil blank_space (keyed_chars "kind" load) (.done .nil)), rfl⟩
  have operator : Spells 124 false (.string UnaryOp.neg.name) _ := spells_chars (Nat.zero_le _) _ 0
  have parts : Spells 125 false (.object [("op", .string UnaryOp.neg.name),
      ("operand", (cell .read 5 (some ⟨1, 2⟩)).toJson)]) _ :=
    .inl ⟨_, .start .nil operator (.next .nil blank_space operand (.done blank_space)), rfl⟩
  have body : Spells 126 true (.object [("UnaryArithmetic", _)]) _ :=
    ⟨_, .start .nil (keyed_chars "UnaryArithmetic" parts) (.done .nil), rfl⟩
  have whole : Spells 127 false looseTree.toJson _ :=
    .inr ⟨[none, some ("kind", _)], [("location", .null)], .refl _, by simp, _,
      .start .nil ⟨"note", by decide, keyed_chars "note" valid_looseNote⟩
        (.next .nil feed ⟨_, [' '], [' '], _, spelled_keyChars "kind", blank_space, blank_space,
          body, rfl⟩ (.done .nil)), rfl⟩
  refine (congrArg (Separated true [Spells 127 false looseTree.toJson]) ?_).mp
    (.start .nil whole (.done feed))
  decide +kernel

theorem looseText_spelling :
    looseTree.SpelledBy looseText ∧ ofText looseText = .ok looseTree ∧
      looseTree.SpelledBy looseTree.toText :=
  have ⟨reads, written⟩ := ofText_spelling looseTree
  ⟨spelledBy_looseText, reads _ spelledBy_looseText, written (by decide)⟩

end Node

end EventScript
