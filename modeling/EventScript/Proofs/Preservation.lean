import EventScript.Proofs.Evaluation

/-! What optimizing keeps of a script's runs. Every ending of the script is an ending of what is
left of it, but for a fault inside a statement that was removed; and what is left has no ending of
its own unless a removed statement never ends. Both hold from any memory from which execution comes
to no rounded shift and to no edge-sensitive conditional that ignores its constant test. -/
namespace EventScript
open Node

def Node.Vanishes (n : Node) : Prop :=
  n.optimize.outcome = .ok none

/-- The expressions that a statement itself evaluates. -/
def Node.expressions : Node → List Node
  | assign target value _ => [target, value]
  | ifWhen condition .. | whileLoop condition .. => [condition]
  | _ => []

namespace Machine

/-- A conditional on a constant takes the branch that the constant selects, if anything is left of
a branch. Only edge-sensitive conditionals can do otherwise. -/
def Steady (M : Machine) (m : Memory) : Node → Prop
  | ifWhen condition onTrue onFalse form p =>
      (isDead onTrue.reduct? && isDead (onFalse.bind reduct?)) = false →
      ∀ v, condition.constant? = some v →
        ∀ first, M.Takes form p m v first ↔ first = decide (v ≠ 0)
  | _ => True

/-- Nothing of what the optimizer does to this statement itself can be told in this memory. -/
structure Faithful (M : Machine) (n : Node) (m : Memory) : Prop where
  exact : ¬ n.Vanishes → ∀ e ∈ n.expressions, e.Exact m
  steady : M.Steady m n

def FaithfulFrom (M : Machine) (s : Option Node) (m : Memory) : Prop :=
  ∀ n m', M.Reaches s m n m' → M.Faithful n m'

/-- Execution comes to a removed statement and faults there. -/
def FaultsRemoved (M : Machine) (s : Option Node) (m : Memory) : Prop :=
  ∃ n m', M.Reaches s m n m' ∧ n.Vanishes ∧ M.Run (some n) m' .fault

/-- Every removed statement that execution comes to could have ended without effect. -/
def EndsRemoved (M : Machine) (s : Option Node) (m : Memory) : Prop :=
  ∀ n m', M.Reaches s m n m' → n.Vanishes → M.Run (some n) m' (.done m')

/-- The endings of the first slot are endings of the second. -/
def Covers (M : Machine) (s r : Option Node) : Prop :=
  ∀ m o, M.FaithfulFrom s m → M.Run s m o → M.Run r m o ∨ o = .fault ∧ M.FaultsRemoved s m

/-- The endings of the second slot are endings of the first. -/
def Reflects (M : Machine) (s r : Option Node) : Prop :=
  ∀ m o, M.FaithfulFrom s m → M.EndsRemoved s m → M.Run r m o → M.Run s m o

variable {M : Machine}

theorem FaultsRemoved.mono (h : M.FaultsRemoved s m)
    (hr : ∀ n m', M.Reaches s m n m' → M.Reaches s' m₀ n m') : M.FaultsRemoved s' m₀ := by
  obtain ⟨n, m', hn, hgone, hfault⟩ := h
  exact ⟨n, m', hr n m' hn, hgone, hfault⟩

theorem FaithfulFrom.mono (h : M.FaithfulFrom s' m₀)
    (hr : ∀ n m', M.Reaches s m n m' → M.Reaches s' m₀ n m') : M.FaithfulFrom s m :=
  fun n m' hn => h n m' (hr n m' hn)

theorem EndsRemoved.mono (h : M.EndsRemoved s' m₀)
    (hr : ∀ n m', M.Reaches s m n m' → M.Reaches s' m₀ n m') : M.EndsRemoved s m :=
  fun n m' hn => h n m' (hr n m' hn)

theorem Covers.within (h : M.Covers s r) (hf : M.FaithfulFrom s' m₀)
    (hr : ∀ n m', M.Reaches s m n m' → M.Reaches s' m₀ n m') (hrun : M.Run s m o) :
    M.Run r m o ∨ o = .fault ∧ M.FaultsRemoved s' m₀ := by
  obtain hkept | ⟨hfault, hgone⟩ := h m o (hf.mono hr) hrun
  · exact .inl hkept
  · exact .inr ⟨hfault, hgone.mono hr⟩

theorem Covers.within_done (h : M.Covers s r) (hf : M.FaithfulFrom s' m₀)
    (hr : ∀ n m', M.Reaches s m n m' → M.Reaches s' m₀ n m') (hrun : M.Run s m (.done m₁)) :
    M.Run r m (.done m₁) := by
  obtain hkept | ⟨hfault, -⟩ := h.within hf hr hrun
  · exact hkept
  · cases hfault

theorem Reflects.within (h : M.Reflects s r) (hf : M.FaithfulFrom s' m₀)
    (hends : M.EndsRemoved s' m₀) (hr : ∀ n m', M.Reaches s m n m' → M.Reaches s' m₀ n m')
    (hrun : M.Run r m o) : M.Run s m o :=
  h m o (hf.mono hr) (hends.mono hr) hrun

/-! Sequences. -/

theorem Covers.blockDrop (hs : M.Covers (some s) r) (dead : isDead r = true)
    (hrest : M.Covers (some (block rest p)) (some (block kept p))) :
    M.Covers (some (block (s :: rest) p)) (some (block kept p)) := by
  intro m o hf hrun
  obtain ⟨m₁, hfirst, hafter⟩ | ⟨rfl, hfirst⟩ := run_block_cons.mp hrun
  · cases (run_dead dead).mp (hs.within_done hf (fun _ _ => .blockFirst) hfirst)
    exact hrest.within hf (fun _ _ => .blockRest hfirst) hafter
  · obtain hfault | hgone := hs.within hf (fun _ _ => .blockFirst) hfirst
    · cases (run_dead dead).mp hfault
    · exact .inr hgone

theorem Covers.blockKeep (hs : M.Covers (some s) (some n))
    (hrest : M.Covers (some (block rest p)) (some (block kept p))) :
    M.Covers (some (block (s :: rest) p)) (some (block (n :: kept) p)) := by
  intro m o hf hrun
  rw [run_block_cons]
  obtain ⟨m₁, hfirst, hafter⟩ | ⟨rfl, hfirst⟩ := run_block_cons.mp hrun
  · have hdone := hs.within_done hf (fun _ _ => .blockFirst) hfirst
    obtain hkept | hgone := hrest.within hf (fun _ _ => .blockRest hfirst) hafter
    · exact .inl (.inl ⟨m₁, hdone, hkept⟩)
    · exact .inr hgone
  · obtain hfault | hgone := hs.within hf (fun _ _ => .blockFirst) hfirst
    · exact .inl (.inr ⟨rfl, hfault⟩)
    · exact .inr hgone

theorem Reflects.blockDrop (hs : M.Reflects (some s) r) (dead : isDead r = true)
    (hrest : M.Reflects (some (block rest p)) (some (block kept p))) :
    M.Reflects (some (block (s :: rest) p)) (some (block kept p)) := by
  intro m o hf hends hrun
  have hfirst : M.Run (some s) m (.done m) :=
    hs.within hf hends (fun _ _ => .blockFirst) ((run_dead dead).mpr rfl)
  exact .blockCons hfirst (hrest.within hf hends (fun _ _ => .blockRest hfirst) hrun)

theorem Reflects.blockKeep (hs : M.Reflects (some s) (some n))
    (hrest : M.Reflects (some (block rest p)) (some (block kept p))) :
    M.Reflects (some (block (s :: rest) p)) (some (block (n :: kept) p)) := by
  intro m o hf hends hrun
  obtain ⟨m₁, hfirst, hafter⟩ | ⟨rfl, hfirst⟩ := run_block_cons.mp hrun
  · have hrun : M.Run (some s) m (.done m₁) :=
      hs.within hf hends (fun _ _ => .blockFirst) hfirst
    exact .blockCons hrun (hrest.within hf hends (fun _ _ => .blockRest hrun) hafter)
  · exact .blockFault (hs.within hf hends (fun _ _ => .blockFirst) hfirst)

/-! Conditionals. -/

theorem Covers.branch (ht : M.Covers (some t) t') (he : M.Covers e e')
    (hf : M.FaithfulFrom (some (ifWhen c t e form p)) m) (hv : c.eval m = some v)
    (htake : M.Takes form p m v first) (hrun : M.Run (if first then some t else e) m o) :
    M.Run (if first then t' else e') m o ∨
      o = .fault ∧ M.FaultsRemoved (some (ifWhen c t e form p)) m := by
  have reach : ∀ n m', M.Reaches (if first then some t else e) m n m' →
      M.Reaches (some (ifWhen c t e form p)) m n m' := fun _ _ => .branch rfl hv htake
  cases first with
  | true => exact ht.within hf reach hrun
  | false => exact he.within hf reach hrun

theorem Reflects.branch (ht : M.Reflects (some t) t') (he : M.Reflects e e')
    (hf : M.FaithfulFrom (some (ifWhen c t e form p)) m)
    (hends : M.EndsRemoved (some (ifWhen c t e form p)) m) (hv : c.eval m = some v)
    (htake : M.Takes form p m v first) (hrun : M.Run (if first then t' else e') m o) :
    M.Run (some (ifWhen c t e form p)) m o := by
  have reach : ∀ n m', M.Reaches (if first then some t else e) m n m' →
      M.Reaches (some (ifWhen c t e form p)) m n m' := fun _ _ => .branch rfl hv htake
  refine .branch rfl hv htake ?_
  cases first with
  | true => exact ht.within hf hends reach hrun
  | false => exact he.within hf hends reach hrun

/-- A statement that is removed has to end where it started, if it ends at all. -/
theorem Covers.vanish (gone : n.Vanishes)
    (same : ∀ m m', M.FaithfulFrom (some n) m → M.Run (some n) m (.done m') → m' = m) :
    M.Covers (some n) none := by
  intro m o hf hrun
  cases o with
  | done m' => exact .inl (run_none.mpr (by rw [same m m' hf hrun]))
  | fault => exact .inr ⟨rfl, n, m, .here, gone, hrun⟩

theorem Reflects.vanish (gone : n.Vanishes) : M.Reflects (some n) none := by
  intro m o _ hends hrun
  cases run_none.mp hrun
  exact hends n m .here gone

theorem Covers.ifEmpty (gone : (ifWhen c t e form p).Vanishes) (ht : M.Covers (some t) t')
    (he : M.Covers e e') (deadTrue : isDead t' = true) (deadFalse : isDead e' = true) :
    M.Covers (some (ifWhen c t e form p)) none := by
  refine .vanish gone fun m m' hf hrun => ?_
  obtain ⟨v, first, hv, htake, hbranch⟩ | ⟨hfault, -⟩ := (run_branches rfl).mp hrun
  · have dead : isDead (if first then t' else e') = true := by cases first <;> assumption
    obtain hdone | ⟨hfault, -⟩ := Covers.branch ht he hf hv htake hbranch
    · cases (run_dead dead).mp hdone
      rfl
    · cases hfault
  · cases hfault

theorem Covers.ifConstant (hconst : c.constant? = some v) (hv : ∀ m, c.eval m = some v)
    (alive : (isDead t.reduct? && isDead (e.bind reduct?)) = false)
    (ht : M.Covers (some t) t') (he : M.Covers e e') :
    M.Covers (some (ifWhen c t e form p)) (if decide (v ≠ 0) then t' else e') := by
  intro m o hf hrun
  obtain ⟨v', first, hv', htake, hbranch⟩ | ⟨-, htest⟩ := (run_branches rfl).mp hrun
  · cases hv'.symm.trans (hv m)
    cases ((hf _ m .here).steady alive v hconst first).mp htake
    exact Covers.branch ht he hf (hv m) htake hbranch
  · cases htest.symm.trans (hv m)

theorem Reflects.ifConstant (hconst : c.constant? = some v) (hv : ∀ m, c.eval m = some v)
    (alive : (isDead t.reduct? && isDead (e.bind reduct?)) = false)
    (ht : M.Reflects (some t) t') (he : M.Reflects e e') :
    M.Reflects (some (ifWhen c t e form p)) (if decide (v ≠ 0) then t' else e') := by
  intro m o hf hends hrun
  have htake : M.Takes form p m v (decide (v ≠ 0)) :=
    ((hf _ m .here).steady alive v hconst _).mpr rfl
  exact Reflects.branch ht he hf hends (hv m) htake hrun

theorem Covers.ifFused (stays : ¬ (ifWhen c t e form p).Vanishes)
    (hc : ∀ m, c.Exact m → (binary op l r q).eval m = c.eval m)
    (ht : M.Covers (some t) t') (he : M.Covers e e') :
    M.Covers (some (ifWhen c t e form p))
      (some (foldedIf op l r (t'.getD (block [] none)) e' form p)) := by
  intro m o hf hrun
  have htest := hc m ((hf _ m .here).exact stays c (List.mem_singleton_self c))
  rw [run_branches rfl]
  obtain ⟨v, first, hv, htake, hbranch⟩ | ⟨rfl, hv⟩ := (run_branches rfl).mp hrun
  · obtain hdone | hgone := Covers.branch ht he hf hv htake hbranch
    · refine .inl (.inl ⟨v, first, htest.trans hv, htake, ?_⟩)
      cases first with
      | true => exact run_getD_block.mpr hdone
      | false => exact hdone
    · exact .inr hgone
  · exact .inl (.inr ⟨rfl, htest.trans hv⟩)

theorem Reflects.ifFused (stays : ¬ (ifWhen c t e form p).Vanishes)
    (hc : ∀ m, c.Exact m → (binary op l r q).eval m = c.eval m)
    (ht : M.Reflects (some t) t') (he : M.Reflects e e') :
    M.Reflects (some (ifWhen c t e form p))
      (some (foldedIf op l r (t'.getD (block [] none)) e' form p)) := by
  intro m o hf hends hrun
  have htest := hc m ((hf _ m .here).exact stays c (List.mem_singleton_self c))
  obtain ⟨v, first, hv, htake, hbranch⟩ | ⟨rfl, hv⟩ := (run_branches rfl).mp hrun
  · refine Reflects.branch ht he hf hends (htest.symm.trans hv) htake ?_
    cases first with
    | true => exact run_getD_block.mp hbranch
    | false => exact hbranch
  · exact .branchFault rfl (htest.symm.trans hv)

/-! Loops. The induction is on the turns of the run, since the tree stays the same. -/

theorem Covers.whileAlwaysFalse (gone : (whileLoop c b p).Vanishes)
    (hv : ∀ m, c.eval m = some 0) : M.Covers (some (whileLoop c b p)) none := by
  refine .vanish gone fun m m' _ hrun => Run.loop_unchanged rfl ?_ hrun
  intro v m₁ ht hne _
  cases (hv m).symm.trans ht
  exact absurd rfl hne

theorem Covers.whileEmpty (gone : (whileLoop c b p).Vanishes) (hb : M.Covers (some b) b')
    (dead : isDead b' = true) : M.Covers (some (whileLoop c b p)) none := by
  refine .vanish gone fun m m' hf hrun => Run.loop_unchanged rfl ?_ hrun
  intro v m₁ ht hne hbody
  cases (run_dead dead).mp (hb.within_done hf (fun _ _ => .body rfl ht hne) hbody)
  rfl

theorem Covers.whileFused (stays : ¬ (whileLoop c b p).Vanishes)
    (hc : ∀ m, c.Exact m → (binary op l r q).eval m = c.eval m)
    (hb : M.Covers (some b) (some b')) :
    M.Covers (some (whileLoop c b p)) (some (foldedWhile op l r b' p)) := by
  intro m o hf hrun
  have test (m) (hf : M.FaithfulFrom (some (whileLoop c b p)) m) :=
    hc m ((hf _ m .here).exact stays c (List.mem_singleton_self c))
  refine Run.loop_induction (motive := fun m o => M.FaithfulFrom (some (whileLoop c b p)) m →
    M.Run (some (foldedWhile op l r b' p)) m o ∨
      o = .fault ∧ M.FaultsRemoved (some (whileLoop c b p)) m) rfl ?_ ?_ ?_ ?_ hrun hf
  · intro m ht hf
    exact .inl (.loopExit rfl ((test m hf).trans ht))
  · intro m m₁ v o ht hne hbody ih hf
    have reach : ∀ n m', M.Reaches (some (whileLoop c b p)) m₁ n m' →
        M.Reaches (some (whileLoop c b p)) m n m' := fun _ _ => .again rfl ht hne hbody
    have hdone := hb.within_done hf (fun _ _ => .body rfl ht hne) hbody
    obtain hafter | ⟨rfl, hgone⟩ := ih (hf.mono reach)
    · exact .inl (.loopAgain rfl ((test m hf).trans ht) hne hdone hafter)
    · exact .inr ⟨rfl, hgone.mono reach⟩
  · intro m v ht hne hbody hf
    obtain hfault | hgone := hb.within hf (fun _ _ => .body rfl ht hne) hbody
    · exact .inl (.loopStop rfl ((test m hf).trans ht) hne hfault)
    · exact .inr hgone
  · intro m ht hf
    exact .inl (.loopFault rfl ((test m hf).trans ht))

theorem Reflects.whileFused (stays : ¬ (whileLoop c b p).Vanishes)
    (hc : ∀ m, c.Exact m → (binary op l r q).eval m = c.eval m)
    (hb : M.Reflects (some b) (some b')) :
    M.Reflects (some (whileLoop c b p)) (some (foldedWhile op l r b' p)) := by
  intro m o hf hends hrun
  have test (m) (hf : M.FaithfulFrom (some (whileLoop c b p)) m) :=
    (hc m ((hf _ m .here).exact stays c (List.mem_singleton_self c))).symm
  refine Run.loop_induction (motive := fun m o => M.FaithfulFrom (some (whileLoop c b p)) m →
    M.EndsRemoved (some (whileLoop c b p)) m → M.Run (some (whileLoop c b p)) m o)
    rfl ?_ ?_ ?_ ?_ hrun hf hends
  · intro m ht hf _
    exact .loopExit rfl ((test m hf).trans ht)
  · intro m m₁ v o ht hne hbody ih hf hends
    have ht' := (test m hf).trans ht
    have hrun : M.Run (some b) m (.done m₁) :=
      hb.within hf hends (fun _ _ => .body rfl ht' hne) hbody
    have reach : ∀ n m', M.Reaches (some (whileLoop c b p)) m₁ n m' →
        M.Reaches (some (whileLoop c b p)) m n m' := fun _ _ => .again rfl ht' hne hrun
    exact .loopAgain rfl ht' hne hrun (ih (hf.mono reach) (hends.mono reach))
  · intro m v ht hne hbody hf hends
    have ht' := (test m hf).trans ht
    exact .loopStop rfl ht' hne (hb.within hf hends (fun _ _ => .body rfl ht' hne) hbody)
  · intro m ht hf _
    exact .loopFault rfl ((test m hf).trans ht)

/-! Statements that are left as they are. -/

theorem Covers.refl : M.Covers s s :=
  fun _ _ _ hrun => .inl hrun

theorem Reflects.refl : M.Reflects s s :=
  fun _ _ _ _ hrun => hrun

end Machine

theorem Grammar.Statement.slot {g : Grammar} (h : g.Statement n) : ∀ m ∈ some n, g.Statement m := by
  rintro m ⟨⟩
  exact h

theorem Grammar.Statement.of_cons {g : Grammar} (h : g.Statement (Node.block (s :: rest) p)) :
    g.Statement s ∧ g.Statement (Node.block rest p) := by
  cases h with
  | block hs => exact ⟨hs s List.mem_cons_self, .block fun n hn => hs n (.tail s hn)⟩

namespace Reduction

variable {M : Machine}

theorem vanishes (h : Reduction (some n) ns none) : n.Vanishes := by
  rw [Node.Vanishes, h.optimize_eq]

theorem isUnfolded_of_none (h : Reduction (some n) ns none) : n.kind.isUnfolded = true := by
  cases h <;> rfl

theorem stays (h : Reduction (some n) ns (some n')) : ¬ n.Vanishes := by
  rw [Node.Vanishes, h.optimize_eq]
  nofun

theorem run_assign_iff (ht : Reduction (some t) ns (some t'))
    (hv : Reduction (some v) ns' (some v')) (hs : Grammar.callFree.Statement (.assign t v p))
    (hf : M.FaithfulFrom (some (.assign t v p)) m) :
    M.Run (some (.assign t v p)) m o ↔ M.Run (some (.assign t' v' p)) m o := by
  obtain _ | ⟨target, value⟩ := hs
  have exact := (hf _ m .here).exact (Reduction.assign ht hv).stays
  have same := ht.target?_eq target (exact t (.head _))
  have same' := hv.eval_eq (.of_callFree value) (exact v (.tail _ (.head _)))
  rw [Machine.run_assign, Machine.run_assign, same, same']

theorem alive_branch (ht : Reduction (some t) ns t') (he : Reduction e ns' e')
    (alive : (isDead t' && isDead e') = false) :
    (isDead t.reduct? && isDead (e.bind reduct?)) = false := by
  rw [ht.reduct?_eq, he.slot_eq, alive]

theorem covers (h : Reduction s ns r) (hs : ∀ n ∈ s, Grammar.callFree.Statement n) :
    M.Covers s r := by
  induction h with
  | skip | blockNil | declare | invoke => exact .refl
  | blockDrop _ dead _ ihs ihrest =>
    obtain ⟨first, others⟩ := (hs _ rfl).of_cons
    exact .blockDrop (ihs first.slot) dead (ihrest others.slot)
  | blockKeep _ _ _ ihs ihrest =>
    obtain ⟨first, others⟩ := (hs _ rfl).of_cons
    exact .blockKeep (ihs first.slot) (ihrest others.slot)
  | assign ht hv =>
    intro m o hf hrun
    exact .inl ((ht.run_assign_iff hv (hs _ rfl) hf).mp hrun)
  | ifEmpty hc ht he deadTrue deadFalse _ iht ihe =>
    obtain _ | _ | ⟨test, onTrue, onFalse⟩ := hs _ rfl
    exact .ifEmpty (ifEmpty hc ht he deadTrue deadFalse).vanishes (iht onTrue.slot) (ihe onFalse)
      deadTrue deadFalse
  | ifAlwaysTrue hc ht he alive hne _ iht ihe =>
    obtain _ | _ | ⟨test, onTrue, onFalse⟩ := hs _ rfl
    have hv := fun m => hc.eval_of_constant (m := m) (.of_callFree test.expression)
    simpa [hne] using Machine.Covers.ifConstant hc.constant?_eq hv (ht.alive_branch he alive)
      (iht onTrue.slot) (ihe onFalse)
  | ifAlwaysFalse hc ht he alive _ iht ihe =>
    obtain _ | _ | ⟨test, onTrue, onFalse⟩ := hs _ rfl
    have hv := fun m => hc.eval_of_constant (m := m) (.of_callFree test.expression)
    exact Machine.Covers.ifConstant hc.constant?_eq hv (ht.alive_branch he alive)
      (iht onTrue.slot) (ihe onFalse)
  | ifFused hc hop ht he alive _ iht ihe =>
    obtain _ | _ | ⟨test, onTrue, onFalse⟩ := hs _ rfl
    exact .ifFused (ifFused hc hop ht he alive).stays
      (fun m => hc.eval_eq (.of_callFree test.expression)) (iht onTrue.slot) (ihe onFalse)
  | whileAlwaysFalse hc hb =>
    obtain _ | _ | _ | ⟨test, body⟩ := hs _ rfl
    exact .whileAlwaysFalse (whileAlwaysFalse hc hb).vanishes
      (fun m => hc.eval_of_constant (.of_callFree test.expression))
  | whileEmpty hc hopen hb dead _ ihb =>
    obtain _ | _ | _ | ⟨test, body⟩ := hs _ rfl
    exact .whileEmpty (whileEmpty hc hopen hb dead).vanishes (ihb body.slot) dead
  | whileFused hc hop hb alive _ ihb =>
    obtain _ | _ | _ | ⟨test, body⟩ := hs _ rfl
    exact .whileFused (whileFused hc hop hb alive).stays
      (fun m => hc.eval_eq (.of_callFree test.expression)) (ihb body.slot)
  | binaryFolded | binaryShifted | binaryKept | unaryFolded | unaryKept | immediate | cell
  | elementResolved | elementKept => cases hs _ rfl

theorem reflects (h : Reduction s ns r) (hs : ∀ n ∈ s, Grammar.callFree.Statement n) :
    M.Reflects s r := by
  induction h with
  | skip | blockNil | declare | invoke => exact .refl
  | blockDrop _ dead _ ihs ihrest =>
    obtain ⟨first, others⟩ := (hs _ rfl).of_cons
    exact .blockDrop (ihs first.slot) dead (ihrest others.slot)
  | blockKeep _ _ _ ihs ihrest =>
    obtain ⟨first, others⟩ := (hs _ rfl).of_cons
    exact .blockKeep (ihs first.slot) (ihrest others.slot)
  | assign ht hv =>
    intro m o hf _ hrun
    exact (ht.run_assign_iff hv (hs _ rfl) hf).mpr hrun
  | ifEmpty hc ht he deadTrue deadFalse =>
    exact .vanish (ifEmpty hc ht he deadTrue deadFalse).vanishes
  | ifAlwaysTrue hc ht he alive hne _ iht ihe =>
    obtain _ | _ | ⟨test, onTrue, onFalse⟩ := hs _ rfl
    have hv := fun m => hc.eval_of_constant (m := m) (.of_callFree test.expression)
    simpa [hne] using Machine.Reflects.ifConstant hc.constant?_eq hv (ht.alive_branch he alive)
      (iht onTrue.slot) (ihe onFalse)
  | ifAlwaysFalse hc ht he alive _ iht ihe =>
    obtain _ | _ | ⟨test, onTrue, onFalse⟩ := hs _ rfl
    have hv := fun m => hc.eval_of_constant (m := m) (.of_callFree test.expression)
    exact Machine.Reflects.ifConstant hc.constant?_eq hv (ht.alive_branch he alive)
      (iht onTrue.slot) (ihe onFalse)
  | ifFused hc hop ht he alive _ iht ihe =>
    obtain _ | _ | ⟨test, onTrue, onFalse⟩ := hs _ rfl
    exact .ifFused (ifFused hc hop ht he alive).stays
      (fun m => hc.eval_eq (.of_callFree test.expression)) (iht onTrue.slot) (ihe onFalse)
  | whileAlwaysFalse hc hb => exact .vanish (whileAlwaysFalse hc hb).vanishes
  | whileEmpty hc hopen hb dead => exact .vanish (whileEmpty hc hopen hb dead).vanishes
  | whileFused hc hop hb alive _ ihb =>
    obtain _ | _ | _ | ⟨test, body⟩ := hs _ rfl
    exact .whileFused (whileFused hc hop hb alive).stays
      (fun m => hc.eval_eq (.of_callFree test.expression)) (ihb body.slot)
  | binaryFolded | binaryShifted | binaryKept | unaryFolded | unaryKept | immediate | cell
  | elementResolved | elementKept => cases hs _ rfl

end Reduction

namespace Machine

/-- From a memory from which nothing that execution comes to is told apart, every ending of a script
is one of what is left of it, or a fault inside something that was removed. If whatever was removed
could have ended, what is left has no other endings either. -/
theorem optimize_keeps_endings (M : Machine) {t : Node} {r : Option Node} {m : Memory}
    (hwf : Grammar.callFree.Statement t) (hr : t.optimize.outcome = .ok r)
    (hf : M.FaithfulFrom (some t) m) :
    (∀ o, M.Run (some t) m o →
      M.Run r m o ∨ o = .fault ∧ M.FaultsRemoved (some t) m) ∧
    (M.EndsRemoved (some t) m → ∀ o, M.Run r m o → M.Run (some t) m o) := by
  have h := reduction_of_outcome hr
  exact ⟨fun o => h.covers hwf.slot m o hf, fun hends o => h.reflects hwf.slot m o hf hends⟩

def plain : Machine where
  act _ m o := o = .done m
  edge _ _ _ v first := first = decide (v ≠ 0)

def silent : Machine where
  act _ m o := o = .done m
  edge _ _ _ _ first := first = false

def halving : Node :=
  .assign (.cell .write 1 none) (.binary .div (.cell .read 0 none) (.immediate 2 none) none) none

def halved : Node :=
  .assign (.cell .write 1 none) (.binary .shiftRight (.cell .read 0 none) (.immediate 1 none) none)
    none

theorem optimize_halving : halving.optimize.outcome = .ok (some halved) := by
  have h : Reduction (some halving) _ (some halved) :=
    .assign .cell (.binaryShifted .cell rfl .immediate rfl)
  rw [h.optimize_eq]

def musing : Node :=
  .ifWhen (.binary .eq (.cell .read 1 none) (.immediate 0 none) none) (.block [] none) none
    ⟨false, none⟩ none

def doubling : Node :=
  .whileLoop (.binary .lt (.cell .read 0 none) (.immediate 9 none) none)
    (.block [musing, .assign (.cell .write 0 none)
      (.binary .mul (.cell .read 0 none) (.immediate 2 none) none) none] none) none

def doubled : Node :=
  .foldedWhile .lt (.cell .read 0 none) (.immediate 9 none)
    (.block [.assign (.cell .write 0 none)
      (.binary .shiftLeft (.cell .read 0 none) (.immediate 1 none) none) none] none) none

theorem mem_outer_of_branch {c : Node} {first : Bool}
    (hb : c.branches? = some (t, e, form, p))
    (h : n ∈ outerSlot (if first then some t else e)) : n ∈ c.outer := by
  cases c with
  | ifWhen | foldedIf =>
    cases hb
    cases first with
    | false => exact .tail _ (List.mem_append_right _ h)
    | true => exact .tail _ (List.mem_append_left _ (List.mem_append_right _ h))
  | _ => cases hb

theorem mem_outer_of_body {w : Node} (hb : w.body? = some b) (h : n ∈ b.outer) :
    n ∈ w.outer := by
  cases w with
  | whileLoop | foldedWhile =>
    cases hb
    exact .tail _ (List.mem_append_right _ h)
  | _ => cases hb

/-- Execution stays in the tree, but for the rests of blocks. -/
theorem Reaches.mem_outer {M : Machine} (h : M.Reaches s m n m') :
    (∃ ss p, n = block ss p) ∨ n ∈ outerSlot s := by
  induction h with
  | here => exact .inr (Node.mem_outer.mpr (.inl rfl))
  | blockFirst _ ih => exact ih.imp_right fun h => .tail _ (List.mem_append_left _ h)
  | blockRest _ _ ih =>
    obtain h | h := ih
    · exact .inl h
    · obtain rfl | h := List.mem_cons.mp h
      · exact .inl ⟨_, _, rfl⟩
      · exact .inr (.tail _ (List.mem_append_right _ h))
  | branch hb _ _ _ ih => exact ih.imp_right (mem_outer_of_branch hb)
  | body hb _ _ _ ih => exact ih.imp_right (mem_outer_of_body hb)
  | again _ _ _ _ _ ih => exact ih

theorem plain_steady : plain.Steady m n := by
  unfold Steady
  split
  · intro _ v _ first
    unfold Takes
    split <;> rfl
  · trivial

theorem statement_halving : Grammar.callFree.Statement halving :=
  .assign .store (.binary .load .immediate)

theorem optimize_doubling : doubling.optimize.outcome = .ok (some doubled) := rfl

theorem statement_doubling : Grammar.callFree.Statement doubling := by
  have idle : Grammar.callFree.Statement musing :=
    .ifWhen (.comparison rfl .load .immediate) (.block (List.forall_mem_nil _)) nofun
  refine .whileLoop (.comparison rfl .load .immediate) (.block ?_)
  exact List.forall_mem_cons.mpr ⟨idle,
    List.forall_mem_singleton.mpr (.assign .store (.binary .load .immediate))⟩

theorem faithful_doubling : plain.FaithfulFrom (some doubling) m := by
  intro n m' h
  refine ⟨fun _ => ?_, plain_steady⟩
  have exact_all : ∀ x ∈ doubling.outer, ∀ e ∈ x.expressions, e.Exact m' := by
    simp [doubling, musing, outer, outerAll, outerSlot, Node.expressions, Node.Exact]
  obtain ⟨ss, p, rfl⟩ | hn := h.mem_outer
  · exact List.forall_mem_nil _
  · exact exact_all n hn

theorem removed_doubling (h : plain.Reaches (some doubling) m n m') (gone : n.Vanishes) :
    n = musing := by
  have branching := (reduction_of_outcome gone).isUnfolded_of_none
  have only : ∀ x ∈ doubling.outer, x.kind.isUnfolded = true → x = doubling ∨ x = musing := by
    simp [doubling, musing, outer, outerAll, outerSlot, kind, Kind.isUnfolded]
  obtain ⟨ss, p, rfl⟩ | hn := h.mem_outer
  · cases branching
  · obtain rfl | rfl := only n hn branching
    · cases optimize_doubling.symm.trans gone
    · rfl

theorem run_musing : plain.Run (some musing) m o ↔ o = .done m := by
  rw [run_branches rfl]
  constructor
  · rintro (⟨v, first, -, -, hbranch⟩ | ⟨-, hnone⟩)
    · cases first with
      | false => exact run_none.mp hbranch
      | true => exact run_block_nil.mp hbranch
    · cases hnone
  · rintro rfl
    refine .inl ⟨_, _, rfl, rfl, ?_⟩
    split
    · exact .blockNil
    · exact .skip

theorem doubling_keeps_endings :
    (Grammar.callFree.Statement halving ∧ halving.optimize.outcome = .ok (some halved) ∧
      plain.Run (some halved) (fun _ => 6) (.done (Memory.set (fun _ => 6) 1 3))) ∧
    Grammar.callFree.Statement doubling ∧ doubling.optimize.outcome = .ok (some doubled) ∧
      ∀ m o, plain.Run (some doubling) m o ↔ plain.Run (some doubled) m o := by
  refine ⟨⟨statement_halving, optimize_halving, ?_⟩, statement_doubling, optimize_doubling,
    fun m o => ?_⟩
  · have hf : plain.FaithfulFrom (some halving) (fun _ => 6) := by
      intro n m' h
      cases h with
      | here =>
        refine ⟨fun _ e he => ?_, trivial⟩
        obtain rfl | he := List.mem_cons.mp he
        · trivial
        · rw [List.mem_singleton.mp he]
          refine ⟨trivial, trivial, fun _ _ b _ _ a ha => .inl ?_⟩
          cases ha
          decide
      | branch hb | body hb | again hb => cases hb
    have hrun : plain.Run (some halving) (fun _ => 6) (.done (Memory.set (fun _ => 6) 1 3)) :=
      .assign rfl rfl
    obtain hkept | ⟨hfault, -⟩ :=
      (optimize_keeps_endings plain statement_halving optimize_halving hf).1 _ hrun
    · exact hkept
    · cases hfault
  · obtain ⟨covers, reflects⟩ :=
      optimize_keeps_endings plain statement_doubling optimize_doubling (faithful_doubling (m := m))
    constructor
    · intro hrun
      obtain hkept | ⟨rfl, n, m', hn, gone, hfault⟩ := covers o hrun
      · exact hkept
      · cases removed_doubling hn gone
        cases run_musing.mp hfault
    · refine reflects (fun n m' hn gone => ?_) o
      cases removed_doubling hn gone
      exact run_musing.mpr rfl

def guarding : Node :=
  .ifWhen (.binary .eq (.binary .div (.immediate 1 none) (.cell .read 0 none) none)
    (.immediate 0 none) none) (.block [] none) none ⟨false, none⟩ none

def waiting : Node :=
  .whileLoop (.binary .eq (.cell .read 0 none) (.immediate 0 none) none) (.block [] none) none

def reacting : Node :=
  .ifWhen (.immediate 1 none) (.assign (.cell .write 0 none) (.immediate 5 none) none) none
    ⟨true, none⟩ none

theorem optimize_guarding : guarding.optimize.outcome = .ok none := by
  have h : Reduction (some guarding) _ none :=
    .ifEmpty (.binaryKept (.binaryKept .immediate .cell (.inr rfl) nofun) .immediate (.inl rfl)
      (fun b hb => by cases hb; rfl)) .blockNil .skip rfl rfl
  rw [h.optimize_eq]

theorem optimize_waiting : waiting.optimize.outcome = .ok none := by
  have h : Reduction (some waiting) _ none :=
    .whileEmpty (.binaryKept .cell .immediate (.inl rfl) (fun b hb => by cases hb; rfl)) rfl
      .blockNil rfl
  rw [h.optimize_eq]

theorem optimize_reacting : reacting.optimize.outcome =
    .ok (some (.assign (.cell .write 0 none) (.immediate 5 none) none)) := by
  have h : Reduction (some reacting) _ _ :=
    .ifAlwaysTrue .immediate (.assign .cell .immediate) .skip rfl (by decide)
  rw [h.optimize_eq]

theorem statement_guarding : Grammar.callFree.Statement guarding :=
  .ifWhen (.comparison rfl (.binary .immediate .load) .immediate) (.block (List.forall_mem_nil _))
    nofun

theorem statement_waiting : Grammar.callFree.Statement waiting :=
  .whileLoop (.comparison rfl .load .immediate) (.block (List.forall_mem_nil _))

theorem statement_reacting : Grammar.callFree.Statement reacting :=
  .ifWhen .constant (.assign .store .immediate) nofun

theorem not_run_waiting : ¬ plain.Run (some waiting) (fun _ => 0) o := by
  intro hrun
  refine Run.loop_induction (motive := fun m _ => m = (fun _ => 0) → False)
    rfl ?_ ?_ ?_ ?_ hrun rfl
  · rintro m ht rfl
    cases ht
  · rintro m m₁ v o _ _ hbody ih rfl
    cases run_block_nil.mp hbody
    exact ih rfl
  · rintro m v _ _ hbody rfl
    cases run_block_nil.mp hbody
  · rintro m ht rfl
    cases ht

/-- The endings from every memory are those of what is left. -/
def KeepsEndings (M : Machine) (t : Node) : Prop :=
  ∀ r, t.optimize.outcome = .ok r → ∀ m o, M.Run (some t) m o ↔ M.Run r m o

theorem endings_not_always_kept :
    (Grammar.callFree.Statement halving ∧ ¬ plain.KeepsEndings halving) ∧
    (Grammar.callFree.Statement guarding ∧ ¬ plain.KeepsEndings guarding) ∧
    (Grammar.callFree.Statement waiting ∧ ¬ plain.KeepsEndings waiting) ∧
    (Grammar.callFree.Statement reacting ∧ ¬ silent.KeepsEndings reacting) := by
  refine ⟨⟨statement_halving, fun keeps => ?_⟩, ⟨statement_guarding, fun keeps => ?_⟩,
    ⟨statement_waiting, fun keeps => ?_⟩, ⟨statement_reacting, fun keeps => ?_⟩⟩
  · have hrun : plain.Run (some halving) (fun _ => -1) (.done (Memory.set (fun _ => -1) 1 0)) :=
      .assign rfl rfl
    obtain ⟨address, v, ht, hv, ho⟩ | ⟨ho, -⟩ :=
      run_assign.mp ((keeps _ optimize_halving _ _).mp hrun)
    · cases ht
      cases hv
      exact absurd (congrFun (Ending.done.inj ho) 1) (by decide)
    · cases ho
  · have hrun : plain.Run (some guarding) (fun _ => 0) .fault := .branchFault rfl rfl
    cases run_none.mp ((keeps _ optimize_guarding _ _).mp hrun)
  · exact not_run_waiting ((keeps _ optimize_waiting _ _).mpr .skip)
  · have htake : silent.Takes ⟨true, none⟩ none (fun _ => 0) 1 false := rfl
    have hrun : silent.Run (some reacting) (fun _ => 0) (.done (fun _ => 0)) :=
      .branch rfl rfl htake .skip
    obtain ⟨address, v, ht, hv, ho⟩ | ⟨ho, -⟩ :=
      run_assign.mp ((keeps _ optimize_reacting _ _).mp hrun)
    · cases ht
      cases hv
      exact absurd (congrFun (Ending.done.inj ho) 0) (by decide)
    · cases ho

end Machine

end EventScript
