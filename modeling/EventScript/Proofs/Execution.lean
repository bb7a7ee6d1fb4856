import EventScript.Proofs.Sequence

/-! What a script does to its memory. An expression has a value or faults; a statement runs to an
ending, and a run that never ends has none. What declarations and calls do, and when an
edge-sensitive conditional fires, is up to the machine. -/
namespace EventScript

abbrev Memory := UInt64 → Int16

def Memory.set (m : Memory) (address : UInt64) (value : Int16) : Memory :=
  fun other => if other = address then value else m other

inductive Ending where
  | done (m : Memory)
  | fault

def ArrayRef.locate? (array : ArrayRef) (index : Int16) : Option UInt64 :=
  if 0 ≤ index ∧ index.toInt.toNat < array.size.toNat then
    some (.ofNat (array.address.toNat + index.toInt.toNat))
  else none

namespace Node

/-- The value of an expression, if it does not fault. Both operands are always evaluated. -/
def eval (m : Memory) : Node → Option Int16
  | immediate value _ => some value
  | cell .read address _ => some (m address)
  | element .read array index _ => do
      let address ← array.locate? (← index.eval m)
      return m address
  | unary op operand _ => do op.apply (← operand.eval m)
  | binary op left right _ => do op.apply (← left.eval m) (← right.eval m)
  | _ => none

def target? (m : Memory) : Node → Option UInt64
  | cell .write address _ => some address
  | element .write array index _ => do array.locate? (← index.eval m)
  | _ => none

def test? (m : Memory) : Node → Option Int16
  | ifWhen condition .. | whileLoop condition .. => condition.eval m
  | foldedIf op left right .. | foldedWhile op left right .. => do
      op.apply (← left.eval m) (← right.eval m)
  | _ => none

def branches? : Node → Option (Node × Option Node × IfForm × Option Position)
  | ifWhen _ onTrue onFalse form p | foldedIf _ _ _ onTrue onFalse form p =>
      some (onTrue, onFalse, form, p)
  | _ => none

def body? : Node → Option Node
  | whileLoop _ body _ | foldedWhile _ _ _ body _ => some body
  | _ => none

end Node

structure Machine where
  act : Node → Memory → Ending → Prop
  /-- Whether an edge-sensitive conditional fires on the value of its test. -/
  edge : IfForm → Option Position → Memory → Int16 → Bool → Prop

namespace Machine
open Node

def Takes (M : Machine) (form : IfForm) (p : Option Position) (m : Memory) (value : Int16)
    (first : Bool) : Prop :=
  if form.edgeSensitive then M.edge form p m value first else first = decide (value ≠ 0)

/-- The runs of a slot. An empty slot does nothing. -/
inductive Run (M : Machine) : Option Node → Memory → Ending → Prop where
  | skip : Run M none m (.done m)
  | blockNil : Run M (some (block [] p)) m (.done m)
  | blockCons : Run M (some s) m (.done m₁) → Run M (some (block rest p)) m₁ o →
      Run M (some (block (s :: rest) p)) m o
  | blockFault : Run M (some s) m .fault → Run M (some (block (s :: rest) p)) m .fault
  | assign : target.target? m = some address → value.eval m = some v →
      Run M (some (assign target value p)) m (.done (m.set address v))
  | assignFault : target.target? m = none ∨ value.eval m = none →
      Run M (some (assign target value p)) m .fault
  | declare : M.act (declare entity p) m o → Run M (some (declare entity p)) m o
  | invoke : M.act (invoke callee args p) m o → Run M (some (invoke callee args p)) m o
  | branch : n.branches? = some (t, e, form, p) → n.test? m = some v → M.Takes form p m v first →
      Run M (if first then some t else e) m o → Run M (some n) m o
  | branchFault : n.branches? = some (t, e, form, p) → n.test? m = none → Run M (some n) m .fault
  | loopExit : n.body? = some b → n.test? m = some 0 → Run M (some n) m (.done m)
  | loopAgain : n.body? = some b → n.test? m = some v → v ≠ 0 → Run M (some b) m (.done m₁) →
      Run M (some n) m₁ o → Run M (some n) m o
  | loopStop : n.body? = some b → n.test? m = some v → v ≠ 0 → Run M (some b) m .fault →
      Run M (some n) m .fault
  | loopFault : n.body? = some b → n.test? m = none → Run M (some n) m .fault

/-- Execution of a slot from one memory comes to a statement in another. -/
inductive Reaches (M : Machine) : Option Node → Memory → Node → Memory → Prop where
  | here : Reaches M (some n) m n m
  | blockFirst : Reaches M (some s) m n m' → Reaches M (some (block (s :: rest) p)) m n m'
  | blockRest : Run M (some s) m (.done m₁) → Reaches M (some (block rest p)) m₁ n m' →
      Reaches M (some (block (s :: rest) p)) m n m'
  | branch : c.branches? = some (t, e, form, p) → c.test? m = some v → M.Takes form p m v first →
      Reaches M (if first then some t else e) m n m' → Reaches M (some c) m n m'
  | body : w.body? = some b → w.test? m = some v → v ≠ 0 → Reaches M (some b) m n m' →
      Reaches M (some w) m n m'
  | again : w.body? = some b → w.test? m = some v → v ≠ 0 → Run M (some b) m (.done m₁) →
      Reaches M (some w) m₁ n m' → Reaches M (some w) m n m'

theorem Run.loop_induction {M : Machine} {motive : Memory → Ending → Prop}
    (hb : n.body? = some b)
    (exit : ∀ m, n.test? m = some 0 → motive m (.done m))
    (again : ∀ m m₁ v o, n.test? m = some v → v ≠ 0 → M.Run (some b) m (.done m₁) →
      motive m₁ o → motive m o)
    (stop : ∀ m v, n.test? m = some v → v ≠ 0 → M.Run (some b) m .fault → motive m .fault)
    (fault : ∀ m, n.test? m = none → motive m .fault)
    (h : M.Run (some n) m o) : motive m o := by
  generalize hs : some n = s at h
  induction h with
  | loopExit hb' ht => cases hs; exact exit _ ht
  | loopAgain hb' ht hv hrun _ _ ih =>
    cases hs
    rw [hb] at hb'
    cases hb'
    exact again _ _ _ _ ht hv hrun (ih rfl)
  | loopStop hb' ht hv hrun =>
    cases hs
    rw [hb] at hb'
    cases hb'
    exact stop _ _ ht hv hrun
  | loopFault hb' ht => cases hs; exact fault _ ht
  | branch hbr => cases hs; cases n <;> simp [body?, branches?] at hb hbr
  | branchFault hbr => cases hs; cases n <;> simp [body?, branches?] at hb hbr
  | _ => cases hs <;> simp [body?] at hb

theorem Run.loop_unchanged {M : Machine} (hb : n.body? = some b)
    (turn : ∀ v m₁, n.test? m = some v → v ≠ 0 → M.Run (some b) m (.done m₁) → m₁ = m)
    (h : M.Run (some n) m (.done m')) : m' = m := by
  have same : ∀ m₂, Ending.done m' = .done m₂ → m₂ = m := by
    refine Run.loop_induction (motive := fun m o =>
      (∀ v m₁, n.test? m = some v → v ≠ 0 → M.Run (some b) m (.done m₁) → m₁ = m) →
        ∀ m₂, o = .done m₂ → m₂ = m) hb ?_ ?_ ?_ ?_ h turn
    · intro m _ _ m₂ h
      cases h
      rfl
    · intro m m₁ v o ht hv hbody ih turn
      cases turn v m₁ ht hv hbody
      exact ih turn
    · intro m v _ _ _ _ m₂ h
      cases h
    · intro m _ _ m₂ h
      cases h
  exact same m' rfl

section

variable {M : Machine}

@[simp] theorem run_none : M.Run none m o ↔ o = .done m :=
  ⟨fun h => by cases h; rfl, fun h => h ▸ .skip⟩

@[simp] theorem run_block_nil : M.Run (some (block [] p)) m o ↔ o = .done m := by
  constructor
  · intro h
    cases h with
    | blockNil => rfl
    | branch hb | branchFault hb | loopExit hb | loopAgain hb | loopStop hb | loopFault hb =>
      cases hb
  · rintro rfl
    exact .blockNil

theorem run_block_cons : M.Run (some (block (s :: rest) p)) m o ↔
    (∃ m₁, M.Run (some s) m (.done m₁) ∧ M.Run (some (block rest p)) m₁ o) ∨
      (o = .fault ∧ M.Run (some s) m .fault) := by
  constructor
  · intro h
    cases h with
    | blockCons hs hrest => exact .inl ⟨_, hs, hrest⟩
    | blockFault hs => exact .inr ⟨rfl, hs⟩
    | branch hb | branchFault hb | loopExit hb | loopAgain hb | loopStop hb | loopFault hb =>
      cases hb
  · rintro (⟨m₁, hs, hrest⟩ | ⟨rfl, hs⟩)
    · exact .blockCons hs hrest
    · exact .blockFault hs

theorem run_assign : M.Run (some (assign target value p)) m o ↔
    (∃ address v, target.target? m = some address ∧ value.eval m = some v ∧
        o = .done (m.set address v)) ∨
      (o = .fault ∧ (target.target? m = none ∨ value.eval m = none)) := by
  constructor
  · intro h
    cases h with
    | assign ht hv => exact .inl ⟨_, _, ht, hv, rfl⟩
    | assignFault hn => exact .inr ⟨rfl, hn⟩
    | branch hb | branchFault hb | loopExit hb | loopAgain hb | loopStop hb | loopFault hb =>
      cases hb
  · rintro (⟨address, v, ht, hv, rfl⟩ | ⟨rfl, hn⟩)
    · exact .assign ht hv
    · exact .assignFault hn

theorem run_branches (hn : n.branches? = some (t, e, form, p)) : M.Run (some n) m o ↔
    (∃ v first, n.test? m = some v ∧ M.Takes form p m v first ∧
        M.Run (if first then some t else e) m o) ∨
      (o = .fault ∧ n.test? m = none) := by
  constructor
  · intro h
    cases h with
    | branch hb ht htake hrun =>
      rw [hn] at hb
      cases hb
      exact .inl ⟨_, _, ht, htake, hrun⟩
    | branchFault hb ht => exact .inr ⟨rfl, ht⟩
    | loopExit hb | loopAgain hb | loopStop hb | loopFault hb =>
      cases n <;> simp [branches?, body?] at hn hb
    | _ => cases hn
  · rintro (⟨v, first, ht, htake, hrun⟩ | ⟨rfl, ht⟩)
    · exact .branch hn ht htake hrun
    · exact .branchFault hn ht

theorem run_dead (dead : isDead r = true) : M.Run r m o ↔ o = .done m := by
  cases r with
  | none => exact run_none
  | some n =>
    obtain ⟨p, rfl⟩ := isEmptyBlock_iff.mp dead
    exact run_block_nil

@[simp] theorem run_getD_block : M.Run (some (r.getD (block [] p))) m o ↔ M.Run r m o := by
  cases r <;> simp

end

end Machine

end EventScript
