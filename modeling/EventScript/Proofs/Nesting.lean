import EventScript.Node.Encode
import EventScript.Proofs.Layout
import EventScript.Proofs.Halt

/-! How deep the text of a tree nests. The optimizer makes it no deeper: what it fuses or folds
takes fewer brackets than before, and an empty block that it puts in stands where something deeper
was. -/
namespace EventScript
open Json

namespace Json

@[simp] theorem nesting_wordJson (n : UInt64) : (wordJson n).nesting = 0 := rfl

@[simp] theorem nesting_optionJson_wordJson (slot : Option UInt64) :
    (optionJson wordJson slot).nesting = 0 := by
  cases slot <;> rfl

@[simp] theorem nesting_string (s : String) : (string s).nesting = 0 := rfl

@[simp] theorem nesting_bool (b : Bool) : (bool b).nesting = 0 := rfl

@[simp] theorem nesting_number (n : Int) : (number n).nesting = 0 := rfl

@[simp] theorem nesting_array (items : List Json) :
    (array items).nesting = 1 + nestingItems items := Nat.add_comm _ _

end Json

namespace Node

mutual

/-- The brackets that are open at a time in the text of a tree: three for each node on the way, and
one more for each list. -/
def depth : Node → Nat
  | block statements _ => 3 + (1 + depthAll statements)
  | assign target value _ => 3 + max target.depth value.depth
  | ifWhen condition onTrue onFalse _ _ =>
      3 + max condition.depth (max onTrue.depth (depthSlot onFalse))
  | foldedIf _ left right onTrue onFalse _ _ =>
      3 + max left.depth (max right.depth (max onTrue.depth (depthSlot onFalse)))
  | whileLoop condition body _ => 3 + max condition.depth body.depth
  | foldedWhile _ left right body _ => 3 + max left.depth (max right.depth body.depth)
  | invoke _ args _ => 3 + (1 + depthAll args)
  | binary _ left right _ => 3 + max left.depth right.depth
  | unary _ operand _ => 3 + operand.depth
  | element _ _ index _ => 3 + index.depth
  | declare .. | immediate .. | cell .. => 3

def depthAll : List Node → Nat
  | [] => 0
  | node :: rest => max node.depth (depthAll rest)

def depthSlot : Option Node → Nat
  | none => 0
  | some node => node.depth

end

theorem nesting_recordJson (kind : Kind) (fields : List (String × Json)) (p : Option Position) :
    (recordJson kind fields p).nesting = 3 + nestingMembers fields := by
  have place : (optionJson Position.toJson p).nesting ≤ 1 := by
    cases p with
    | none => exact Nat.zero_le 1
    | some p => exact Nat.le_refl 1
  simp only [recordJson, Json.nesting, nestingMembers]
  omega

mutual

theorem nesting_toJson : (n : Node) → n.toJson.nesting = n.depth
  | block ss _ => by
      simp [toJson, nesting_recordJson, nestingMembers, depth, nesting_allToJson ss]
  | assign t v _ => by
      simp [toJson, nesting_recordJson, nestingMembers, depth, nesting_toJson t,
        nesting_toJson v]
  | ifWhen c t e _ _ => by
      simp [toJson, nesting_recordJson, nestingMembers, depth, nesting_toJson c,
        nesting_toJson t, nesting_slotToJson e]
  | foldedIf _ l r t e _ _ => by
      simp [toJson, nesting_recordJson, nestingMembers, depth, nesting_toJson l,
        nesting_toJson r, nesting_toJson t, nesting_slotToJson e]
  | whileLoop c b _ => by
      simp [toJson, nesting_recordJson, nestingMembers, depth, nesting_toJson c,
        nesting_toJson b]
  | foldedWhile _ l r b _ => by
      simp [toJson, nesting_recordJson, nestingMembers, depth, nesting_toJson l,
        nesting_toJson r, nesting_toJson b]
  | declare entity _ => by
      cases entity <;> simp [toJson, nesting_recordJson, nestingMembers, depth]
  | invoke callee args _ => by
      cases callee <;>
        simp [toJson, nesting_recordJson, nestingMembers, depth, nesting_allToJson args]
  | binary _ l r _ => by
      simp [toJson, nesting_recordJson, nestingMembers, depth, nesting_toJson l,
        nesting_toJson r]
  | unary _ n _ => by
      simp [toJson, nesting_recordJson, nestingMembers, depth, nesting_toJson n]
  | immediate _ _ => by simp [toJson, nesting_recordJson, nestingMembers, depth]
  | cell access _ _ => by
      cases access <;> simp [toJson, nesting_recordJson, nestingMembers, depth]
  | element _ _ i _ => by
      simp [toJson, nesting_recordJson, nestingMembers, depth, nesting_toJson i]

theorem nesting_allToJson : (ns : List Node) → nestingItems (allToJson ns) = depthAll ns
  | [] => rfl
  | n :: ns => by
      rw [allToJson, nestingItems, nesting_toJson n, nesting_allToJson ns, depthAll]

theorem nesting_slotToJson : (slot : Option Node) → (slotToJson slot).nesting = depthSlot slot
  | none => rfl
  | some n => nesting_toJson n

end

theorem three_le_depth (n : Node) : 3 ≤ n.depth := by
  cases n <;> simp [depth]

/-! A test alone makes a construct as deep as an empty block. -/

theorem four_le_depth_ifWhen : 4 ≤ (ifWhen c t e form p).depth := by
  have := c.three_le_depth
  simp only [depth]
  omega

theorem four_le_depth_whileLoop : 4 ≤ (whileLoop c b p).depth := by
  have := c.three_le_depth
  simp only [depth]
  omega

end Node

/-! ### Optimizing -/

namespace Reduction
open Node

/-- Only a conditional or a loop vanishes. -/
theorem depth_of_vanished (h : Reduction (some t) ns none) : 4 ≤ t.depth := by
  cases h with
  | ifEmpty | ifAlwaysTrue | ifAlwaysFalse => exact four_le_depth_ifWhen
  | whileAlwaysFalse | whileEmpty => exact four_le_depth_whileLoop

theorem depth_getD_block (h : Reduction (some t) ns r) (le : depthSlot r ≤ t.depth) :
    (r.getD (block [] none)).depth ≤ t.depth := by
  cases r with
  | none => exact h.depth_of_vanished
  | some n => exact le

/-- What is left of a slot nests no deeper than the slot. -/
theorem depth_le (h : Reduction s ns r) : depthSlot r ≤ depthSlot s := by
  induction h with
  | skip | blockNil | declare | invoke | immediate | cell => exact Nat.le_refl _
  | ifEmpty | whileAlwaysFalse | whileEmpty => exact Nat.zero_le _
  | blockDrop _ _ _ _ ihrest =>
    simp only [depthSlot, Node.depth, depthAll] at *
    omega
  | blockKeep _ _ _ ihs ihrest =>
    simp only [depthSlot, Node.depth, depthAll] at *
    omega
  | ifFused _ _ ht _ _ ihc iht ihe =>
    have := ht.depth_getD_block iht
    simp only [depthSlot, Node.depth] at *
    omega
  | binaryFolded | unaryFolded | elementResolved =>
    simp only [depthSlot, Node.depth]
    omega
  | assign | ifAlwaysTrue | ifAlwaysFalse | whileFused | binaryShifted | binaryKept | unaryKept
  | elementKept =>
    simp only [depthSlot, Node.depth] at *
    omega

end Reduction

end EventScript
