import EventScript.Node.Decode
import EventScript.Proofs.Nesting

/-! Whatever is read was read inside the brackets that were open. So a limit on the brackets is a
limit on the nesting of the trees that are read, however their text is spelled. -/
namespace EventScript
open Json

namespace Json

def CanRead (read : Reader α) (a : α) : Prop := ∃ s rest, read s = .ok (a, rest)

theorem canRead_of_readItems {read : Reader α} (h : readItems read steps first s = .ok (as, rest)) :
    ∀ a ∈ as, CanRead read a := by
  induction steps generalizing first s as rest with
  | zero => cases h
  | succ steps ih =>
    rw [readItems] at h
    obtain ⟨⟨more, next⟩, -, h⟩ := bind_eq_ok h
    cases more with
    | false =>
      obtain ⟨_, -, h⟩ := bind_eq_ok h
      cases h
      exact List.forall_mem_nil _
    | true =>
      obtain ⟨⟨item, rest₁⟩, hitem, h⟩ := bind_eq_ok h
      obtain ⟨⟨items, rest₂⟩, hitems, h⟩ := bind_eq_ok h
      cases h
      exact List.forall_mem_cons.mpr ⟨⟨_, _, hitem⟩, ih hitems⟩

theorem canRead_of_readList {item? : Option (Reader α)}
    (h : readList steps item? s = .ok (as, rest)) :
    ∃ item, item? = some item ∧ ∀ a ∈ as, CanRead item a := by
  unfold readList at h
  split at h
  · split at h
    · cases h
    · exact ⟨_, rfl, canRead_of_readItems h⟩
  · exact (unexpected_ne_ok _ _ _ h).elim

theorem canRead_of_readOptional {read : Reader α} (h : readOptional read s = .ok (slot, rest)) :
    ∀ a ∈ slot, CanRead read a := by
  unfold readOptional at h
  split at h
  · obtain ⟨_, -, h⟩ := map_eq_ok h
    cases h
    simp
  · obtain ⟨⟨a, rest₁⟩, ha, h⟩ := map_eq_ok h
    cases h
    rintro _ ⟨⟩
    exact ⟨_, _, ha⟩

theorem canRead_of_readVariant {ν α : Type} {ofName? : String → Option ν} {names : List String}
    {plain : ν → Reader α} {content? : Option (ν → Reader α)} {a : α}
    (h : readVariant ofName? names plain content? s = .ok (a, rest)) :
    (∃ tag, CanRead (plain tag) a) ∨
      ∃ content tag, content? = some content ∧ CanRead (content tag) a := by
  unfold readVariant at h
  split at h
  · cases h
  · obtain ⟨⟨tag, rest₁⟩, -, h⟩ := bind_eq_ok h
    exact .inl ⟨tag, rest₁, rest, h⟩
  · split at h
    · cases h
    · rename_i content
      split at h
      · cases h
      · cases h
      · obtain ⟨⟨tag, rest₁⟩, -, h⟩ := bind_eq_ok h
        obtain ⟨rest₂, -, h⟩ := bind_eq_ok h
        obtain ⟨⟨value, rest₃⟩, hvalue, h⟩ := bind_eq_ok h
        dsimp only at h
        split at h
        · cases h
        · cases h
          exact .inr ⟨content, tag, rfl, rest₂, rest₃, hvalue⟩
        · cases h
      · cases h
  · cases h

end Json

def Values.All (P : (shape : Shape) → shape.Value → Prop) :
    (fields : List Field) → Values fields → Prop
  | [], () => True
  | field :: fields, (value, values) => P field.shape value ∧ Values.All P fields values

namespace Slots
variable {P : (shape : Shape) → shape.Value → Prop}

def All (P : (shape : Shape) → shape.Value → Prop) : (fields : List Field) → Slots fields → Prop
  | [], () => True
  | field :: fields, (slot, slots) => (∀ value ∈ slot, P field.shape value) ∧ All P fields slots

theorem all_empty (fields : List Field) : All P fields (empty fields) := by
  induction fields with
  | nil => trivial
  | cons field fields ih => exact ⟨by simp, ih⟩

theorem All.fill {read : (shape : Shape) → Reader shape.Value} {fields : List Field}
    {slots slots' : Slots fields} (hslots : All P fields slots)
    (hread : ∀ shape value, CanRead (read shape) value → P shape value)
    (h : slots.fill steps read key fields s = .ok (slots', rest)) : All P fields slots' := by
  induction fields generalizing rest with
  | nil => trivial
  | cons field fields ih =>
    obtain ⟨slot, slots⟩ := slots
    unfold Slots.fill at h
    split at h
    · split at h
      · cases h
      · obtain ⟨next, -, h⟩ := bind_eq_ok h
        obtain ⟨⟨value, rest₁⟩, hvalue, h⟩ := bind_eq_ok h
        cases h
        refine ⟨?_, hslots.2⟩
        rintro _ ⟨⟩
        exact hread _ _ ⟨_, _, hvalue⟩
    · obtain ⟨⟨slots₁, rest₁⟩, hrest, h⟩ := bind_eq_ok h
      cases h
      exact ⟨hslots.1, ih hslots.2 hrest⟩

theorem All.complete {fields : List Field} {slots : Slots fields} {values : Values fields}
    (hslots : All P fields slots)
    (habsent : ∀ shape value, shape.absent? = some value → P shape value)
    (h : slots.complete rest fields = .ok values) : Values.All P fields values := by
  induction fields with
  | nil => trivial
  | cons field fields ih =>
    obtain ⟨slot, slots⟩ := slots
    unfold Slots.complete at h
    split at h
    · rename_i value hvalue
      obtain ⟨values₁, hvalues, h⟩ := bind_eq_ok h
      cases h
      refine ⟨?_, ih hslots.2 hvalues⟩
      cases slot with
      | none => exact habsent _ _ hvalue
      | some value' =>
        cases hvalue
        exact hslots.1 _ rfl
    · cases h

end Slots

section
variable {P : (shape : Shape) → shape.Value → Prop} {read : (shape : Shape) → Reader shape.Value}

theorem all_of_readMembers {fields : List Field} {slots : Slots fields} {values : Values fields}
    (hread : ∀ shape value, CanRead (read shape) value → P shape value)
    (habsent : ∀ shape value, shape.absent? = some value → P shape value)
    (hslots : slots.All P fields)
    (h : readMembers skipSteps read fields steps first slots s = .ok (values, rest)) :
    Values.All P fields values := by
  induction steps generalizing first slots s rest with
  | zero => cases h
  | succ steps ih =>
    rw [readMembers] at h
    obtain ⟨⟨more, next⟩, -, h⟩ := bind_eq_ok h
    cases more with
    | false =>
      obtain ⟨values₁, hvalues, h⟩ := bind_eq_ok h
      cases h
      exact hslots.complete habsent hvalues
    | true =>
      obtain ⟨⟨key, rest₁⟩, -, h⟩ := bind_eq_ok h
      obtain ⟨⟨slots₁, rest₂⟩, hfill, h⟩ := bind_eq_ok h
      exact ih (hslots.fill hread hfill) h

theorem all_of_readColumns {record : Record} {fields : List Field} {values : Values fields}
    (hread : ∀ shape value, CanRead (read shape) value → P shape value)
    (habsent : ∀ shape value, shape.absent? = some value → P shape value)
    (h : readColumns read record count fields s = .ok (values, rest)) :
    Values.All P fields values := by
  induction fields generalizing count s rest with
  | nil => trivial
  | cons field fields ih =>
    rw [readColumns] at h
    obtain ⟨⟨more, next⟩, -, h⟩ := bind_eq_ok h
    cases more with
    | false =>
      dsimp only at h
      split at h
      · rename_i value _ hvalue
        obtain ⟨⟨values₁, rest₁⟩, hvalues, h⟩ := bind_eq_ok h
        cases h
        exact ⟨habsent _ _ hvalue, ih hvalues⟩
      · cases h
    | true =>
      obtain ⟨⟨value, rest₁⟩, hvalue, h⟩ := bind_eq_ok h
      obtain ⟨⟨values₁, rest₂⟩, hvalues, h⟩ := bind_eq_ok h
      cases h
      exact ⟨hread _ _ ⟨_, _, hvalue⟩, ih hvalues⟩

end

/-- The values of a record are read inside its brackets, unless they may be absent. -/
theorem all_of_readRecord {record : Record}
    {read? : Option ((shape : Shape) → Reader shape.Value)} {values : Values record.fields}
    (h : readRecord steps record read? s = .ok (values, rest)) :
    ∃ read, read? = some read ∧ ∀ P : (shape : Shape) → shape.Value → Prop,
      (∀ shape value, CanRead (read shape) value → P shape value) →
      (∀ shape value, shape.absent? = some value → P shape value) →
      Values.All P record.fields values := by
  unfold readRecord at h
  split at h
  · split at h
    · cases h
    · obtain ⟨⟨values₁, rest₁⟩, hvalues, h⟩ := bind_eq_ok h
      obtain ⟨_, -, h⟩ := bind_eq_ok h
      cases h
      have read := mapError_eq_ok.mp hvalues
      exact ⟨_, rfl, fun P hread habsent => all_of_readColumns hread habsent read⟩
  · split at h
    · cases h
    · have read := mapError_eq_ok.mp h
      exact ⟨_, rfl, fun P hread habsent =>
        all_of_readMembers hread habsent (Slots.all_empty _) read⟩
  · exact (unexpected_ne_ok _ _ _ h).elim

/-! ### The limit -/

namespace Node

theorem depth_withPosition (n : Node) (p : Option Position) :
    (n.withPosition p).depth = n.depth := by
  cases n <;> rfl

theorem depthAll_le {ns : List Node} (h : ∀ n ∈ ns, n.depth ≤ limit) :
    depthAll ns ≤ limit := by
  induction ns with
  | nil => exact Nat.zero_le _
  | cons n ns ih =>
    rw [List.forall_mem_cons] at h
    exact Nat.max_le.mpr ⟨h.1, ih h.2⟩

end Node

namespace Shape

/-- A value that was read with so many brackets. The outer brackets of a node have been opened
before its body, and those of its body before its payload. -/
def Fits (limit : Nat) : (shape : Shape) → shape.Value → Prop
  | node, n => n.depth ≤ limit
  | maybeNode, slot => Node.depthSlot slot ≤ limit
  | nodes, ns => 1 + Node.depthAll ns ≤ limit
  | body, n => n.depth ≤ limit + 1
  | payload _, n => n.depth ≤ limit + 2
  | _, _ => True

theorem fits_absent {shape : Shape} {value : shape.Value} (h : shape.absent? = some value) :
    shape.Fits limit value := by
  cases shape <;> cases h <;> simp [Fits, Node.depthSlot]

end Shape

theorem Kind.depth_build {kind : Kind} {values : Values kind.fields}
    (h : Values.All (Shape.Fits limit) kind.fields values) :
    (kind.build values).depth ≤ limit + 3 := by
  cases kind <;> simp [Values.All, Shape.Fits, Kind.build, Node.depth] at h ⊢ <;> omega

namespace Shape

section
variable {inner? : Option ((shape : Shape) → Reader shape.Value)}

/-- One bracket less may be opened inside of what is read. -/
def Narrower (limit : Nat) (inner? : Option ((shape : Shape) → Reader shape.Value)) : Prop :=
  ∀ inner ∈ inner?, ∃ below, limit = below + 1 ∧
    ∀ shape value, CanRead (inner shape) value → shape.Fits below value

theorem depth_of_readNode (hinner : Narrower limit inner?)
    (h : readWith.readNode steps inner? s = .ok (n, rest)) : n.depth ≤ limit := by
  obtain ⟨⟨⟨unplaced, place, ⟨⟩⟩, rest₁⟩, hrecord, hn⟩ := map_eq_ok h
  obtain ⟨inner, hi, hall⟩ := all_of_readRecord hrecord
  obtain ⟨below, rfl, hfits⟩ := hinner inner hi
  have fits := hall (Fits below) hfits fun _ _ => fits_absent
  cases hn
  rw [Node.depth_withPosition]
  exact fits.1

theorem fits_of_readWith (hinner : Narrower limit inner?) {shape : Shape} {value : shape.Value}
    (h : shape.readWith steps inner? s = .ok (value, rest)) : shape.Fits limit value := by
  cases shape with
  | node => exact depth_of_readNode hinner h
  | maybeNode =>
    have hread := canRead_of_readOptional h
    cases value with
    | none => exact Nat.zero_le _
    | some n =>
      obtain ⟨s', rest', h'⟩ := hread n rfl
      exact depth_of_readNode hinner h'
  | nodes =>
    obtain ⟨item, hitem, hread⟩ := canRead_of_readList h
    obtain ⟨inner, hi, rfl⟩ := Option.map_eq_some_iff.mp hitem
    obtain ⟨below, rfl, hfits⟩ := hinner inner hi
    have := Node.depthAll_le fun n hn => hfits node n (hread n hn)
    simp only [Fits]
    omega
  | body =>
    rw [readWith] at h
    rcases canRead_of_readVariant h with ⟨tag, hplain⟩ | ⟨content, tag, hcontent, hread⟩
    · obtain ⟨_, _, ⟨⟩⟩ := hplain
    · obtain ⟨inner, hi, rfl⟩ := Option.map_eq_some_iff.mp hcontent
      obtain ⟨below, rfl, hfits⟩ := hinner inner hi
      exact hfits (payload tag) _ hread
  | payload kind =>
    obtain ⟨⟨values, rest₁⟩, hrecord, hn⟩ := map_eq_ok h
    obtain ⟨inner, hi, hall⟩ := all_of_readRecord hrecord
    obtain ⟨below, rfl, hfits⟩ := hinner inner hi
    have fits := hall (Fits below) hfits fun _ _ => fits_absent
    cases hn
    exact Kind.depth_build fits
  | _ => trivial

end

theorem fits_of_readWithin {shape : Shape} {value : shape.Value}
    (h : shape.readWithin steps limit s = .ok (value, rest)) : shape.Fits limit value := by
  induction limit generalizing shape s rest with
  | zero =>
    refine fits_of_readWith ?_ h
    intro inner hinner
    cases hinner
  | succ limit ih =>
    refine fits_of_readWith ?_ h
    rintro inner ⟨⟩
    exact ⟨limit, rfl, fun shape value ⟨s, rest, h⟩ => ih h⟩

end Shape

/-- A tree that is read nests no deeper than the limit. -/
theorem Node.depth_of_ofText {text : String} {n : Node} (h : Node.ofText text = .ok n) :
    n.depth ≤ depthLimit := by
  rw [Node.ofText, readText, mapError_eq_ok, readWhole] at h
  obtain ⟨⟨n₁, rest⟩, hread, h⟩ := bind_eq_ok h
  dsimp only at h
  split at h
  · cases h
    exact Shape.fits_of_readWithin hread
  · cases h

end EventScript
