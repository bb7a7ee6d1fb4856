import EventScript.Proofs.Halt
import EventScript.Proofs.Session
import EventScript.Proofs.Shift

/-! Nothing is rewritten in silence. A run without notes drops empty blocks from blocks and does
nothing else; and every note stands for work that is gone from the result, so that no later rewrite
can restore the tree. -/
namespace EventScript
open Node

namespace Node

mutual

/-- The tree without the empty blocks among the statements of its blocks, from the inside out; the
arguments of calls are left as they are. -/
def prune : Node → Node
  | block statements p => block (pruneAll statements) p
  | assign target value p => assign target.prune value.prune p
  | ifWhen condition onTrue onFalse form p =>
      ifWhen condition.prune onTrue.prune (pruneSlot onFalse) form p
  | foldedIf op left right onTrue onFalse form p =>
      foldedIf op left.prune right.prune onTrue.prune (pruneSlot onFalse) form p
  | whileLoop condition body p => whileLoop condition.prune body.prune p
  | foldedWhile op left right body p => foldedWhile op left.prune right.prune body.prune p
  | binary op left right p => binary op left.prune right.prune p
  | unary op operand p => unary op operand.prune p
  | element access array index p => element access array index.prune p
  | other => other

def pruneAll : List Node → List Node
  | [] => []
  | statement :: rest =>
      if statement.prune.isEmptyBlock then pruneAll rest else statement.prune :: pruneAll rest

def pruneSlot : Option Node → Option Node
  | none => none
  | some node => some node.prune

end

end Node

def BinaryOp.surplus : BinaryOp → Nat
  | mul | div => 1
  | _ => 0

theorem BinaryOp.surplus_of_reduceStrength {op : BinaryOp}
    (h : op.reduceStrength v = .ok (some (shift, count))) : op.surplus = shift.surplus + 1 := by
  obtain ⟨-, -, ⟨rfl, rfl⟩ | ⟨rfl, rfl⟩⟩ := reduceStrength_eq_some h <;> rfl

namespace Node

mutual

/-- How much there is for the rules to find. Blocks weigh no more than their statements, and what a
rule leaves of a node weighs less than the node. -/
def weight : Node → Nat
  | block statements _ => weightAll statements
  | assign target value _ => target.weight + value.weight
  | ifWhen condition onTrue onFalse _ _ =>
      condition.weight + onTrue.weight + weightSlot onFalse + 1
  | foldedIf _ left right onTrue onFalse _ _ =>
      left.weight + right.weight + onTrue.weight + weightSlot onFalse
  | whileLoop condition body _ => condition.weight + body.weight + 1
  | foldedWhile _ left right body _ => left.weight + right.weight + body.weight
  | binary op left right _ => left.weight + right.weight + op.surplus + 1
  | unary _ operand _ => operand.weight + 1
  | element _ _ index _ => index.weight + 1
  | declare .. | invoke .. | immediate .. | cell .. => 0

def weightAll : List Node → Nat
  | [] => 0
  | statement :: rest => statement.weight + weightAll rest

def weightSlot : Option Node → Nat
  | none => 0
  | some node => node.weight

end

theorem weight_of_isEmptyBlock {n : Node} (h : n.isEmptyBlock = true) : n.weight = 0 := by
  obtain ⟨p, rfl⟩ := isEmptyBlock_iff.mp h
  rw [weight, weightAll]

theorem weight_getD_block (r : Option Node) : (r.getD (block [] p)).weight = weightSlot r := by
  cases r <;> simp [weightSlot, weight, weightAll]

mutual

theorem weight_prune : (n : Node) → n.prune.weight = n.weight
  | block ss p => by rw [prune, weight, weight, weightAll_pruneAll ss]
  | assign target value p => by
      rw [prune, weight, weight, weight_prune target, weight_prune value]
  | ifWhen c t e form p => by
      rw [prune, weight, weight, weight_prune c, weight_prune t, weightSlot_pruneSlot e]
  | foldedIf op l r t e form p => by
      rw [prune, weight, weight, weight_prune l, weight_prune r, weight_prune t,
        weightSlot_pruneSlot e]
  | whileLoop c b p => by rw [prune, weight, weight, weight_prune c, weight_prune b]
  | foldedWhile op l r b p => by
      rw [prune, weight, weight, weight_prune l, weight_prune r, weight_prune b]
  | binary op l r p => by rw [prune, weight, weight, weight_prune l, weight_prune r]
  | unary op n p => by rw [prune, weight, weight, weight_prune n]
  | element access array i p => by rw [prune, weight, weight, weight_prune i]
  | declare .. | invoke .. | immediate .. | cell .. => rfl

theorem weightAll_pruneAll : (ss : List Node) → weightAll (pruneAll ss) = weightAll ss
  | [] => rfl
  | s :: rest => by
      have others := weightAll_pruneAll rest
      have first := weight_prune s
      rw [pruneAll, weightAll]
      split
      · rename_i empty
        have nothing := weight_of_isEmptyBlock empty
        omega
      · rw [weightAll]
        omega

theorem weightSlot_pruneSlot : (s : Option Node) → weightSlot (pruneSlot s) = weightSlot s
  | none => rfl
  | some n => by rw [pruneSlot, weightSlot, weightSlot, weight_prune n]

end

end Node

namespace Reduction

/-- Every note stands for weight that is gone. -/
theorem weight_le (h : Reduction s ns r) : weightSlot r + ns.length ≤ weightSlot s := by
  induction h with
  | skip | blockNil | declare | invoke | immediate | cell => exact Nat.le_refl _
  | ifFused =>
    simp only [weightSlot, weight, weight_getD_block, List.length_append, List.length_singleton]
      at *
    omega
  | binaryShifted _ _ _ hs =>
    have lighter := BinaryOp.surplus_of_reduceStrength hs
    simp only [weightSlot, weight, List.length_append, List.length_singleton] at *
    omega
  | _ =>
    simp only [weightSlot, weight, weightAll, List.length_append, List.length_singleton] at *
    omega

theorem eq_pruneSlot (h : Reduction s ns r) (silent : ns = []) : r = pruneSlot s := by
  induction h with
  | skip | blockNil | declare | invoke | immediate | cell => rfl
  | blockDrop _ dead _ ihs ihrest =>
    obtain ⟨silent, silent'⟩ := List.append_eq_nil_iff.mp silent
    rw [ihs silent, pruneSlot, isDead_some] at dead
    rw [ihrest silent', pruneSlot, pruneSlot, prune, prune, pruneAll, if_pos dead]
  | blockKeep _ full _ ihs ihrest =>
    obtain ⟨silent, silent'⟩ := List.append_eq_nil_iff.mp silent
    cases ihs silent
    cases ihrest silent'
    rw [pruneSlot, prune, pruneAll, full, if_neg Bool.false_ne_true]
  | assign _ _ iht ihv =>
    obtain ⟨silent, silent'⟩ := List.append_eq_nil_iff.mp silent
    cases iht silent
    cases ihv silent'
    rw [pruneSlot, prune]
  | binaryKept _ _ _ _ ihl ihr =>
    obtain ⟨silent, silent'⟩ := List.append_eq_nil_iff.mp silent
    cases ihl silent
    cases ihr silent'
    rw [pruneSlot, prune]
  | unaryKept _ _ ih =>
    cases ih silent
    rw [pruneSlot, prune]
  | elementKept _ _ ih =>
    cases ih silent
    rw [pruneSlot, prune]
  | _ => simp at silent

end Reduction

namespace Node

/-- A result is the tree without its empty blocks exactly if nothing was logged. -/
theorem optimize_silent_iff {t : Node} (hr : t.optimize.outcome = .ok r) :
    r = some t.prune ↔ t.optimize.log = [] := by
  have reduction := reduction_of_outcome hr
  rw [Traced.log, List.map_eq_nil_iff]
  constructor
  · rintro rfl
    have gone := reduction.weight_le
    rw [weightSlot, weightSlot, weight_prune] at gone
    exact List.eq_nil_of_length_eq_zero (by omega)
  · intro silent
    rw [reduction.eq_pruneSlot silent, pruneSlot]

def sifting : Node :=
  block
    [block [block [] none, block [block [] none] none] none,
      assign (cell .write 0 none)
        (binary .mul (cell .read 0 none) (immediate 3 none) none) none,
      invoke (.event 1) [block [block [] none] none] none] none

def sifted : Node :=
  block
    [assign (cell .write 0 none)
        (binary .mul (cell .read 0 none) (immediate 3 none) none) none,
      invoke (.event 1) [block [block [] none] none] none] none

def idling : Node :=
  block
    [sifting,
      whileLoop (binary .lt (cell .read 0 none) (immediate 3 none) none)
        (block [block [] none] none) none] none

theorem sifting_silent :
    sifting.optimize.outcome = .ok (some sifted) ∧ sifting.optimize.log = [] ∧
      idling.optimize.outcome = .ok (some (block [sifted] none)) ∧
      idling.optimize.log ≠ [] ∧ block [sifted] none ≠ idling.prune := by
  have loud : idling.optimize.log ≠ [] := List.cons_ne_nil _ _
  refine ⟨rfl, (optimize_silent_iff (t := sifting) rfl).mp rfl, rfl, loud, ?_⟩
  intro same
  exact loud ((optimize_silent_iff (t := idling) rfl).mp (congrArg some same))

end Node

end EventScript
