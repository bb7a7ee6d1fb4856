import EventScript.Proofs.Halt

/-! Dead code goes and nothing else does: the statements left in the result are the live statements
of the tree, each one once and in the same order. -/
namespace EventScript.Node

mutual

/-- The statements of a tree that are not behind a test which is known to fail, as they are left
when they are optimized. -/
def live : Node → List Node
  | block statements _ => liveAll statements
  | ifWhen condition onTrue onFalse _ _ =>
      match condition.constant? with
      | some value => if value ≠ 0 then onTrue.live else liveSlot onFalse
      | none => onTrue.live ++ liveSlot onFalse
  | whileLoop condition body _ => if condition.constant? = some 0 then [] else body.live
  | other => [other.reduct?.getD other]

def liveAll : List Node → List Node
  | [] => []
  | statement :: rest => statement.live ++ liveAll rest

def liveSlot : Option Node → List Node
  | none => []
  | some node => node.live

end

mutual

/-- The statements of a result from left to right, without the constructs that only hold others. -/
def leaves : Node → List Node
  | block statements _ => leavesAll statements
  | foldedIf _ _ _ onTrue onFalse _ _ => onTrue.leaves ++ leavesSlot onFalse
  | foldedWhile _ _ _ body _ => body.leaves
  | other => [other]

def leavesAll : List Node → List Node
  | [] => []
  | statement :: rest => statement.leaves ++ leavesAll rest

def leavesSlot : Option Node → List Node
  | none => []
  | some node => node.leaves

end

theorem isDead_iff {r : Option Node} :
    isDead r = true ↔ r = none ∨ ∃ p, r = some (block [] p) := by
  cases r <;> simp [isEmptyBlock_iff]

theorem leavesSlot_of_isDead {r : Option Node} (dead : isDead r = true) : leavesSlot r = [] := by
  obtain rfl | ⟨p, rfl⟩ := isDead_iff.mp dead <;> simp [leavesSlot, leaves, leavesAll]

theorem leaves_getD_block (r : Option Node) : (r.getD (block [] p)).leaves = leavesSlot r := by
  cases r <;> simp [leavesSlot, leaves, leavesAll]

end EventScript.Node

namespace EventScript.Reduction
open Node

theorem leaf_eq (h : Reduction (some n) ns (some n')) (single : n.live = [n.reduct?.getD n])
    (leaf : n'.leaves = [n']) : leavesSlot (some n') = liveSlot (some n) := by
  rw [leavesSlot, liveSlot, single, leaf, h.reduct?_eq, Option.getD_some]

theorem leaves_eq_live (h : Reduction s ns r) : leavesSlot r = liveSlot s := by
  induction h with
  | skip => simp [leavesSlot, liveSlot]
  | blockNil => simp [leavesSlot, liveSlot, leaves, live, leavesAll, liveAll]
  | blockDrop _ dead _ ihs ihrest =>
    simp only [leavesSlot, liveSlot, leaves, live, liveAll] at ihs ihrest ⊢
    rw [← ihs, leavesSlot_of_isDead dead, ihrest, List.nil_append]
  | blockKeep _ _ _ ihs ihrest =>
    simp only [leavesSlot, liveSlot, leaves, live, liveAll, leavesAll] at ihs ihrest ⊢
    rw [ihs, ihrest]
  | ifEmpty _ _ _ deadTrue deadFalse _ iht ihe =>
    simp only [leavesSlot, liveSlot, live] at iht ⊢
    rw [← iht, ← ihe, leavesSlot_of_isDead deadTrue, leavesSlot_of_isDead deadFalse]
    split <;> simp
  | ifAlwaysTrue hc _ _ _ hne _ iht _ =>
    simp only [liveSlot, live, hc.constant?_eq, immediate?_immediate] at iht ⊢
    rw [iht, if_pos hne]
  | ifAlwaysFalse hc _ _ _ _ _ ihe =>
    simp only [liveSlot, live, hc.constant?_eq, immediate?_immediate]
    rw [ihe, if_neg (not_not_intro rfl)]
  | ifFused hc _ _ _ _ _ iht ihe =>
    simp only [leavesSlot, liveSlot, leaves, live, hc.constant?_eq, immediate?_binary] at iht ⊢
    rw [leaves_getD_block, iht, ihe]
  | whileAlwaysFalse hc _ => simp [leavesSlot, liveSlot, live, hc.constant?_eq]
  | whileEmpty _ _ _ dead _ ihb =>
    simp only [leavesSlot, liveSlot, live] at ihb ⊢
    rw [← ihb, leavesSlot_of_isDead dead, ite_self]
  | whileFused hc _ _ _ _ ihb =>
    simp only [leavesSlot, liveSlot, leaves, live, hc.constant?_eq, immediate?_binary] at ihb ⊢
    rw [ihb, if_neg (Option.some_ne_none 0).symm]
  | assign ht hv => exact leaf_eq (.assign ht hv) rfl rfl
  | declare => exact leaf_eq .declare rfl rfl
  | invoke => exact leaf_eq .invoke rfl rfl
  | binaryFolded hl hr hv => exact leaf_eq (.binaryFolded hl hr hv) rfl rfl
  | binaryShifted hl hopen hr hs => exact leaf_eq (.binaryShifted hl hopen hr hs) rfl rfl
  | binaryKept hl hr hopen hs => exact leaf_eq (.binaryKept hl hr hopen hs) rfl rfl
  | unaryFolded hn hv => exact leaf_eq (.unaryFolded hn hv) rfl rfl
  | unaryKept hn hopen => exact leaf_eq (.unaryKept hn hopen) rfl rfl
  | immediate => exact leaf_eq .immediate rfl rfl
  | cell => exact leaf_eq .cell rfl rfl
  | elementResolved hi low high fits => exact leaf_eq (.elementResolved hi low high fits) rfl rfl
  | elementKept hi hopen => exact leaf_eq (.elementKept hi hopen) rfl rfl

theorem isDead_of_leaves (h : Reduction s ns r) (none_left : leavesSlot r = []) :
    isDead r = true := by
  induction h with
  | skip | blockNil | ifEmpty | whileAlwaysFalse | whileEmpty => rfl
  | blockDrop _ _ _ _ ihrest => exact ihrest none_left
  | blockKeep _ full _ ihs _ =>
    rw [leavesSlot, leaves, leavesAll, List.append_eq_nil_iff] at none_left
    rw [← isDead_some, ihs none_left.1] at full
    cases full
  | ifAlwaysTrue _ _ _ _ _ _ iht _ => exact iht none_left
  | ifAlwaysFalse _ _ _ _ _ _ ihe => exact ihe none_left
  | ifFused _ _ _ _ full _ iht ihe =>
    rw [leavesSlot, leaves, leaves_getD_block, List.append_eq_nil_iff] at none_left
    rw [iht none_left.1, ihe none_left.2] at full
    cases full
  | whileFused _ _ _ full _ ihb =>
    rw [leavesSlot, leaves] at none_left
    rw [← isDead_some, ihb none_left] at full
    cases full
  | assign | declare | invoke | binaryFolded | binaryShifted | binaryKept | unaryFolded
  | unaryKept | immediate | cell | elementResolved | elementKept => cases none_left

end EventScript.Reduction

namespace EventScript.Node

/-- No live statement is lost, repeated or moved, and of dead code nothing is left, not even the
constructs it stood in. -/
theorem optimize_leaves_live {t : Node} (hr : t.optimize.outcome = .ok r) :
    leavesSlot r = t.live ∧ ((r = none ∨ ∃ p, r = some (block [] p)) ↔ t.live = []) := by
  have h := reduction_of_outcome hr
  have hlive : leavesSlot r = t.live := h.leaves_eq_live
  refine ⟨hlive, ?_⟩
  rw [← isDead_iff, ← hlive]
  exact ⟨leavesSlot_of_isDead, h.isDead_of_leaves⟩

def dispatching : Node :=
  block
    [declare (.event 7) none,
      whileLoop (immediate 0 none) (invoke (.sub 0) [] none) none,
      ifWhen (binary .lt (immediate 2 none) (immediate 1 none) none) (invoke (.sub 1) [] none)
        (some (assign (cell .write 0 none)
          (binary .mul (cell .read 1 none) (immediate 4 none) none) none)) ⟨false, none⟩ none,
      ifWhen (binary .eq (cell .read 0 none) (immediate 0 none) none)
        (block [block [] none, invoke (.sub 3) [] none] none) (some (block [] none))
        ⟨false, none⟩ none] none

def shifting : Node :=
  assign (cell .write 0 none) (binary .shiftLeft (cell .read 1 none) (immediate 2 none) none) none

def dispatched : Node :=
  block
    [declare (.event 7) none, shifting,
      foldedIf .eq (cell .read 0 none) (immediate 0 none) (block [invoke (.sub 3) [] none] none)
        (some (block [] none)) ⟨false, none⟩ none] none

theorem dispatching_leaves_live :
    dispatching.optimize.outcome = .ok (some dispatched) ∧
      [declare (.event 7) none, shifting, invoke (.sub 3) [] none] = dispatching.live :=
  ⟨rfl, (optimize_leaves_live (t := dispatching) (r := some dispatched) rfl).1⟩

end EventScript.Node
