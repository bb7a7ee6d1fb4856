import EventScript.Proofs.Sequence

/-! The successful runs of the optimizer as derivations: one rule for each thing that can happen to
a node whose parts are reduced. What holds of every result is proved by induction on derivations. -/
namespace EventScript
open Node

/-- A slot, the notes sent while it is reduced, and what is left of it. -/
inductive Reduction : Option Node → List Note → Option Node → Prop where
  | skip : Reduction none [] none
  | blockNil : Reduction (some (block [] p)) [] (some (block [] p))
  | blockDrop : Reduction (some s) ns r → isDead r = true →
      Reduction (some (block rest p)) ns' (some (block kept p)) →
      Reduction (some (block (s :: rest) p)) (ns ++ ns') (some (block kept p))
  | blockKeep : Reduction (some s) ns (some n) → n.isEmptyBlock = false →
      Reduction (some (block rest p)) ns' (some (block kept p)) →
      Reduction (some (block (s :: rest) p)) (ns ++ ns') (some (block (n :: kept) p))
  | assign : Reduction (some target) ns (some target') → Reduction (some value) ns' (some value') →
      Reduction (some (assign target value p)) (ns ++ ns') (some (assign target' value' p))
  | ifEmpty : Reduction (some c) ns (some c') → Reduction (some t) ns₁ t' → Reduction e ns₂ e' →
      isDead t' = true → isDead e' = true →
      Reduction (some (ifWhen c t e form p)) (ns ++ ns₁ ++ ns₂ ++ [⟨.ifEmpty, p⟩]) none
  | ifAlwaysTrue : Reduction (some c) ns (some (immediate v q)) → Reduction (some t) ns₁ t' →
      Reduction e ns₂ e' → (isDead t' && isDead e') = false → v ≠ 0 →
      Reduction (some (ifWhen c t e form p)) (ns ++ ns₁ ++ ns₂ ++ [⟨.ifAlwaysTrue, p⟩]) t'
  | ifAlwaysFalse : Reduction (some c) ns (some (immediate 0 q)) → Reduction (some t) ns₁ t' →
      Reduction e ns₂ e' → (isDead t' && isDead e') = false →
      Reduction (some (ifWhen c t e form p)) (ns ++ ns₁ ++ ns₂ ++ [⟨.ifAlwaysFalse, p⟩]) e'
  | ifFused : Reduction (some c) ns (some (binary op l r q)) → op.isCondition = true →
      Reduction (some t) ns₁ t' → Reduction e ns₂ e' → (isDead t' && isDead e') = false →
      Reduction (some (ifWhen c t e form p)) (ns ++ ns₁ ++ ns₂ ++ [⟨.ifFused, p⟩])
        (some (foldedIf op l r (t'.getD (block [] none)) e' form p))
  | whileAlwaysFalse : Reduction (some c) ns (some (immediate 0 q)) → Reduction (some b) ns' b' →
      Reduction (some (whileLoop c b p)) (ns ++ ns' ++ [⟨.whileAlwaysFalse, p⟩]) none
  | whileEmpty : Reduction (some c) ns (some c') → c'.immediate? = none →
      Reduction (some b) ns' b' → isDead b' = true →
      Reduction (some (whileLoop c b p)) (ns ++ ns' ++ [⟨.whileEmpty, p⟩]) none
  | whileFused : Reduction (some c) ns (some (binary op l r q)) → op.isCondition = true →
      Reduction (some b) ns' (some b') → b'.isEmptyBlock = false →
      Reduction (some (whileLoop c b p)) (ns ++ ns' ++ [⟨.whileFused, p⟩])
        (some (foldedWhile op l r b' p))
  | declare : Reduction (some (declare entity p)) [] (some (declare entity p))
  | invoke : Reduction (some (invoke callee args p)) [] (some (invoke callee args p))
  | binaryFolded : Reduction (some l) ns (some (immediate a q)) →
      Reduction (some r) ns' (some (immediate b q')) → op.apply a b = some v →
      Reduction (some (binary op l r p)) (ns ++ ns' ++ [⟨.binaryFolded, p⟩])
        (some (immediate v p))
  | binaryShifted : Reduction (some l) ns (some l') → l'.immediate? = none →
      Reduction (some r) ns' (some (immediate b q)) →
      op.reduceStrength b = .ok (some (shift, count)) →
      Reduction (some (binary op l r p))
        (ns ++ ns' ++ [⟨if op = .mul then .multiplicationShifted else .divisionShifted, p⟩])
        (some (binary shift l' (immediate count q) p))
  | binaryKept : Reduction (some l) ns (some l') → Reduction (some r) ns' (some r') →
      l'.immediate? = none ∨ r'.immediate? = none →
      (∀ b, r'.immediate? = some b → op.reduceStrength b = .ok none) →
      Reduction (some (binary op l r p)) (ns ++ ns') (some (binary op l' r' p))
  | unaryFolded : Reduction (some n) ns (some (immediate a q)) → op.apply a = some v →
      Reduction (some (unary op n p)) (ns ++ [⟨.unaryFolded, p⟩]) (some (immediate v p))
  | unaryKept : Reduction (some n) ns (some n') → n'.immediate? = none →
      Reduction (some (unary op n p)) ns (some (unary op n' p))
  | immediate : Reduction (some (immediate v p)) [] (some (immediate v p))
  | cell : Reduction (some (cell access address p)) [] (some (cell access address p))
  | elementResolved : Reduction (some i) ns (some (immediate v q)) → 0 ≤ v →
      v.toInt.toNat < array.size.toNat → array.address.toNat + v.toInt.toNat < UInt64.size →
      Reduction (some (element access array i p)) (ns ++ [⟨.elementResolved access, p⟩])
        (some (cell access (.ofNat (array.address.toNat + v.toInt.toNat)) p))
  | elementKept : Reduction (some i) ns (some i') → i'.immediate? = none →
      Reduction (some (element access array i p)) ns (some (element access array i' p))

namespace Node
open Pass

theorem rewriteSlot_some (n : Node) : rewriteSlot (some n) = n.rewrite := by
  rw [rewriteSlot]

/-! What each rule does to reduced parts. -/

theorem follows_ifEmpty (dead : isDead t = true) (dead' : isDead e = true) :
    (reduceIf c t e form p).Follows ⟨[⟨.ifEmpty, p⟩], .ok none⟩ := by
  rw [reduceIf, dead, dead']
  exact follows_note.bind follows_pure

theorem follows_ifAlwaysTrue (alive : (isDead t && isDead e) = false) (hv : v ≠ 0) :
    (reduceIf (immediate v q) t e form p).Follows ⟨[⟨.ifAlwaysTrue, p⟩], .ok t⟩ := by
  simp only [reduceIf, alive, immediate?_immediate, if_pos hv]
  exact follows_note.bind follows_pure

theorem follows_ifAlwaysFalse (alive : (isDead t && isDead e) = false) :
    (reduceIf (immediate 0 q) t e form p).Follows ⟨[⟨.ifAlwaysFalse, p⟩], .ok e⟩ := by
  rw [reduceIf, alive]
  exact follows_note.bind follows_pure

theorem follows_splitTest (hop : op.isCondition = true) :
    (splitTest construct (binary op l r q)).Follows ⟨[], .ok (op, l, r)⟩ := by
  rw [splitTest, if_pos hop]
  exact follows_pure

theorem follows_ifFused (hop : op.isCondition = true) (alive : (isDead t && isDead e) = false) :
    (reduceIf (binary op l r q) t e form p).Follows
      ⟨[⟨.ifFused, p⟩], .ok (some (foldedIf op l r (t.getD (block [] none)) e form p))⟩ := by
  rw [reduceIf, alive]
  exact (follows_splitTest hop).bind (follows_note.bind follows_pure)

theorem follows_whileAlwaysFalse :
    (reduceWhile (immediate 0 q) b p).Follows ⟨[⟨.whileAlwaysFalse, p⟩], .ok none⟩ := by
  cases b <;> exact follows_note.bind follows_pure

theorem follows_whileEmpty (hc : c.immediate? = none) (dead : isDead b = true) :
    (reduceWhile c b p).Follows ⟨[⟨.whileEmpty, p⟩], .ok none⟩ := by
  unfold reduceWhile
  cases b with
  | none =>
    simp only [hc]
    exact follows_note.bind follows_pure
  | some body =>
    rw [isDead_some] at dead
    simp only [hc, dead, if_true]
    exact follows_note.bind follows_pure

theorem follows_whileFused (hop : op.isCondition = true) (alive : b.isEmptyBlock = false) :
    (reduceWhile (binary op l r q) (some b) p).Follows
      ⟨[⟨.whileFused, p⟩], .ok (some (foldedWhile op l r b p))⟩ := by
  unfold reduceWhile
  simp only [immediate?_binary, alive]
  exact (follows_splitTest hop).bind (follows_note.bind follows_pure)

theorem follows_binaryFolded (hv : op.apply a b = some v) :
    (reduceBinary op (immediate a q) (immediate b q') p).Follows
      ⟨[⟨.binaryFolded, p⟩], .ok (immediate v p)⟩ := by
  simp only [reduceBinary, immediate?_immediate, hv]
  exact follows_note.bind follows_pure

theorem follows_binaryShifted (hl : l.immediate? = none)
    (hs : op.reduceStrength b = .ok (some (shift, count))) :
    (reduceBinary op l (immediate b q) p).Follows
      ⟨[⟨if op = .mul then .multiplicationShifted else .divisionShifted, p⟩],
        .ok (binary shift l (immediate count q) p)⟩ := by
  simp only [reduceBinary, hl, immediate?_immediate, hs]
  exact follows_note.bind follows_pure

theorem follows_binaryKept (hopen : l.immediate? = none ∨ r.immediate? = none)
    (hs : ∀ b, r.immediate? = some b → op.reduceStrength b = .ok none) :
    (reduceBinary op l r p).Follows ⟨[], .ok (binary op l r p)⟩ := by
  unfold reduceBinary
  cases hr : r.immediate? with
  | none => cases l.immediate? <;> exact follows_pure
  | some b =>
    have hl : l.immediate? = none := by simpa [hr] using hopen
    simp only [hl, hs b hr]
    exact follows_pure

theorem follows_unaryFolded (hv : op.apply a = some v) :
    (reduceUnary op (immediate a q) p).Follows ⟨[⟨.unaryFolded, p⟩], .ok (immediate v p)⟩ := by
  simp only [reduceUnary, immediate?_immediate, hv]
  exact follows_note.bind follows_pure

theorem follows_elementResolved (low : 0 ≤ v) (high : v.toInt.toNat < array.size.toNat)
    (fits : array.address.toNat + v.toInt.toNat < UInt64.size) :
    (reduceElement access array (immediate v q) p).Follows ⟨[⟨.elementResolved access, p⟩],
      .ok (cell access (.ofNat (array.address.toNat + v.toInt.toNat)) p)⟩ := by
  simp only [reduceElement, immediate?_immediate, low, high, fits, and_self, if_true]
  exact follows_note.bind follows_pure

theorem follows_rewriteAll
    (h : (block ss p).rewrite.Follows ⟨ns, .ok (some (block kept p))⟩) :
    (rewriteAll ss).Follows ⟨ns, .ok kept⟩ := by
  intro o
  have whole := h o
  rw [rewrite] at whole
  change EStateM.bind (rewriteAll ss) _ o = _ at whole
  rw [EStateM.bind] at whole
  cases hss : rewriteAll ss o with
  | error stop o' => rw [hss] at whole; cases whole
  | ok kept' o' => rw [hss] at whole; cases whole; rfl

end Node

namespace Reduction
open Pass

theorem follows (h : Reduction s ns r) : (rewriteSlot s).Follows ⟨ns, .ok r⟩ := by
  induction h with
  | skip => rw [rewriteSlot]; exact follows_pure
  | blockNil =>
    rw [rewriteSlot_some, rewrite, rewriteAll]
    exact follows_pure.bind_pure rfl
  | blockDrop _ dead _ ihs ihrest =>
    rw [rewriteSlot_some] at ihs ihrest ⊢
    rw [rewrite, rewriteAll]
    refine (ihs.bind ((follows_rewriteAll ihrest).bind_pure ?_)).bind_pure rfl
    rw [dead, if_pos rfl]
  | blockKeep _ alive _ ihs ihrest =>
    rw [rewriteSlot_some] at ihs ihrest ⊢
    rw [rewrite, rewriteAll]
    refine (ihs.bind ((follows_rewriteAll ihrest).bind_pure ?_)).bind_pure rfl
    rw [isDead_some, alive]
    rfl
  | assign _ _ iht ihv =>
    rw [rewriteSlot_some] at iht ihv ⊢
    rw [rewrite]
    exact follows_required iht (ihv.bind_pure rfl)
  | ifEmpty _ _ _ dead dead' ihc iht ihe =>
    rw [rewriteSlot_some] at ihc iht ⊢
    rw [rewrite, List.append_assoc, List.append_assoc]
    exact follows_required ihc (iht.bind (ihe.bind (follows_ifEmpty dead dead')))
  | ifAlwaysTrue _ _ _ alive hv ihc iht ihe =>
    rw [rewriteSlot_some] at ihc iht ⊢
    rw [rewrite, List.append_assoc, List.append_assoc]
    exact follows_required ihc (iht.bind (ihe.bind (follows_ifAlwaysTrue alive hv)))
  | ifAlwaysFalse _ _ _ alive ihc iht ihe =>
    rw [rewriteSlot_some] at ihc iht ⊢
    rw [rewrite, List.append_assoc, List.append_assoc]
    exact follows_required ihc (iht.bind (ihe.bind (follows_ifAlwaysFalse alive)))
  | ifFused _ hop _ _ alive ihc iht ihe =>
    rw [rewriteSlot_some] at ihc iht ⊢
    rw [rewrite, List.append_assoc, List.append_assoc]
    exact follows_required ihc (iht.bind (ihe.bind (follows_ifFused hop alive)))
  | whileAlwaysFalse _ _ ihc ihb =>
    rw [rewriteSlot_some] at ihc ihb ⊢
    rw [rewrite, List.append_assoc]
    exact follows_required ihc (ihb.bind follows_whileAlwaysFalse)
  | whileEmpty _ hc _ dead ihc ihb =>
    rw [rewriteSlot_some] at ihc ihb ⊢
    rw [rewrite, List.append_assoc]
    exact follows_required ihc (ihb.bind (follows_whileEmpty hc dead))
  | whileFused _ hop _ alive ihc ihb =>
    rw [rewriteSlot_some] at ihc ihb ⊢
    rw [rewrite, List.append_assoc]
    exact follows_required ihc (ihb.bind (follows_whileFused hop alive))
  | binaryFolded _ _ hv ihl ihr =>
    rw [rewriteSlot_some] at ihl ihr ⊢
    rw [rewrite, List.append_assoc]
    exact follows_required ihl (follows_required ihr (follows_binaryFolded hv).map)
  | binaryShifted _ hl _ hs ihl ihr =>
    rw [rewriteSlot_some] at ihl ihr ⊢
    rw [rewrite, List.append_assoc]
    exact follows_required ihl (follows_required ihr (follows_binaryShifted hl hs).map)
  | binaryKept _ _ hopen hs ihl ihr =>
    rw [rewriteSlot_some] at ihl ihr ⊢
    rw [rewrite]
    exact follows_required ihl (follows_required_last ihr (follows_binaryKept hopen hs).map)
  | unaryFolded _ hv ih =>
    rw [rewriteSlot_some] at ih ⊢
    rw [rewrite]
    exact follows_required ih (follows_unaryFolded hv).map
  | unaryKept _ hn ih =>
    rw [rewriteSlot_some] at ih ⊢
    rw [rewrite]
    refine follows_required_last ih (Follows.map ?_)
    rw [reduceUnary, hn]
    exact follows_pure
  | elementResolved _ low high fits ih =>
    rw [rewriteSlot_some] at ih ⊢
    rw [rewrite]
    exact follows_required ih (follows_elementResolved low high fits).map
  | elementKept _ hi ih =>
    rw [rewriteSlot_some] at ih ⊢
    rw [rewrite]
    refine follows_required_last ih (Follows.map ?_)
    rw [reduceElement, hi]
    exact follows_pure
  | declare | invoke | immediate | cell =>
    rw [rewriteSlot_some, rewrite]
    exact follows_pure

theorem follows_node (h : Reduction (some n) ns r) : n.rewrite.Follows ⟨ns, .ok r⟩ := by
  rw [← rewriteSlot_some]
  exact h.follows

end Reduction

end EventScript
