import EventScript.Proofs.Halt

/-! Optimizing does not let a tree grow. Every note that does not tell of a shift is paid for by a
node that is gone, and a node of which nothing is left pays for the empty block that may have to
stand in its place. -/
namespace EventScript
open Node

/-- A shift has as many nodes as the operation it stands for; any other simplification leaves fewer
than it found. -/
def Simplification.removesNode : Simplification → Bool
  | multiplicationShifted | divisionShifted => false
  | _ => true

def removals (notes : List Note) : Nat :=
  notes.countP fun note => note.change.removesNode

namespace Node

mutual

def size : Node → Nat
  | block statements _ => sizeAll statements + 1
  | assign target value _ => target.size + value.size + 1
  | ifWhen condition onTrue onFalse _ _ => condition.size + onTrue.size + sizeSlot onFalse + 1
  | foldedIf _ left right onTrue onFalse _ _ =>
      left.size + right.size + onTrue.size + sizeSlot onFalse + 1
  | whileLoop condition body _ => condition.size + body.size + 1
  | foldedWhile _ left right body _ => left.size + right.size + body.size + 1
  | invoke _ args _ => sizeAll args + 1
  | binary _ left right _ => left.size + right.size + 1
  | unary _ operand _ => operand.size + 1
  | element _ _ index _ => index.size + 1
  | declare .. | immediate .. | cell .. => 1

def sizeAll : List Node → Nat
  | [] => 0
  | node :: rest => node.size + sizeAll rest

def sizeSlot : Option Node → Nat
  | none => 0
  | some node => node.size

end

theorem size_pos (n : Node) : 0 < n.size := by
  cases n <;> simp [size]

/-- The nodes for which a slot keeps room: where one is gone, an empty block may have to stand. -/
def room : Option Node → Option Node → Nat
  | none, left => sizeSlot left
  | some _, left => (left.getD (block [] none)).size

theorem room_some (n : Node) (left : Option Node) :
    room (some n) left = (left.getD (block [] none)).size := rfl

theorem lt_of_room {n : Node} (h : room (some n) left + k ≤ whole) : k < whole := by
  have taken := size_pos (left.getD (block [] none))
  rw [room_some] at h
  omega

theorem le_of_room (h : room slot left + k ≤ whole) :
    sizeSlot left + k ≤ whole ∧ (left.getD (block [] none)).size + k ≤ whole + 1 := by
  cases slot <;> cases left <;>
    simp only [room, sizeSlot, Option.getD_some, Option.getD_none, size, sizeAll] at h ⊢ <;>
    omega

end Node

theorem removals_append (ns ns' : List Note) :
    removals (ns ++ ns') = removals ns + removals ns' :=
  List.countP_append

theorem removals_singleton (change : Simplification) (p : Option Position) :
    removals [⟨change, p⟩] = if change.removesNode then 1 else 0 :=
  List.countP_singleton

theorem removals_shifted (op : BinaryOp) (p : Option Position) :
    removals [⟨if op = .mul then .multiplicationShifted else .divisionShifted, p⟩] = 0 := by
  split <;> rfl

namespace Reduction

/-- What is left of a slot, with room for what is gone, and the notes that are not about shifts
take no more than the nodes that the slot had. -/
theorem room_add_removals_le (h : Reduction s ns r) : room s r + removals ns ≤ sizeSlot s := by
  induction h with
  | skip | blockNil | declare | invoke | immediate | cell => exact Nat.le_refl _
  | ifEmpty _ _ _ _ _ ihc | whileEmpty _ _ _ _ ihc =>
    have test := lt_of_room ihc
    simp only [room_some, sizeSlot, size, sizeAll, removals_append, removals_singleton,
      Simplification.removesNode, Option.getD_none, if_true] at *
    omega
  | ifAlwaysFalse _ _ _ _ _ _ ihe | ifFused _ _ _ _ _ _ _ ihe =>
    have slot := le_of_room ihe
    simp only [room_some, sizeSlot, size, removals_append, removals_singleton,
      Simplification.removesNode, Option.getD_some, if_true] at *
    omega
  | binaryShifted =>
    simp only [room_some, sizeSlot, size, removals_append, removals_shifted, Option.getD_some] at *
    omega
  | _ =>
    simp only [room_some, sizeSlot, size, sizeAll, removals_append, removals_singleton,
      Simplification.removesNode, Option.getD_some, Option.getD_none, if_true] at *
    omega

end Reduction

namespace Node

/-- The nodes that are left and the notes that are not about shifts are together no more than the
nodes of the tree, and fewer if nothing is left. -/
theorem optimize_size_le {t : Node} (ok : t.optimize.outcome = .ok r) :
    sizeSlot r + removals t.optimize.notes ≤ t.size ∧
      (r = none → sizeSlot r + removals t.optimize.notes < t.size) := by
  have bound := (reduction_of_outcome ok).room_add_removals_le
  constructor
  · exact (le_of_room bound).1
  · rintro rfl
    simpa only [sizeSlot, Nat.zero_add] using lt_of_room bound

def skirting : Node :=
  ifWhen
    (binary .lt (cell .read 0 none)
      (binary .mul (immediate 3 none) (immediate 4 none) none) none)
    (whileLoop (immediate 0 none) (block [] none) none)
    (some (invoke (.event 1) [binary .add (immediate 1 none) (immediate 2 none) none] none))
    ⟨false, none⟩ none

def skirted : Node :=
  foldedIf .lt (cell .read 0 none) (immediate 12 none) (block [] none)
    (some (invoke (.event 1) [binary .add (immediate 1 none) (immediate 2 none) none] none))
    ⟨false, none⟩ none

def bypassing : Node :=
  whileLoop (immediate 0 none) skirting none

theorem skirting_size_le :
    skirting.size = 13 ∧ sizeSlot (some skirted) = 8 ∧ removals skirting.optimize.notes = 3 ∧
      sizeSlot (some skirted) + removals skirting.optimize.notes ≤ skirting.size ∧
      sizeSlot none + removals bypassing.optimize.notes < bypassing.size :=
  ⟨rfl, rfl, rfl, (optimize_size_le (t := skirting) rfl).1,
    (optimize_size_le (t := bypassing) rfl).2 rfl⟩

end Node

end EventScript
