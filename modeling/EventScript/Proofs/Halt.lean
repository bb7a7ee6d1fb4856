import EventScript.Proofs.Occurrence
import EventScript.Proofs.Reduction

/-! The runs that stop. The parts of a node are gone through in order; a run stops in the first part
that stops, at a part that vanishes where there has to be one, or at the node itself once its parts
are reduced. Every run either reduces a tree or stops, whatever optimizer it runs on. -/
namespace EventScript
open Node

namespace Node

/-- The parts that are reduced before the node, with the role of those that must not vanish. -/
def parts : Node → List (Option Role × Node)
  | block statements _ => statements.map (none, ·)
  | assign target value _ => [(some .assignmentTarget, target), (some .assignmentValue, value)]
  | ifWhen condition onTrue onFalse _ _ =>
      (some .ifCondition, condition) :: (none, onTrue) :: onFalse.toList.map (none, ·)
  | whileLoop condition body _ => [(some .whileCondition, condition), (none, body)]
  | binary _ left right _ => [(some .leftOperand, left), (some .rightOperand, right)]
  | unary _ operand _ => [(some .unaryOperand, operand)]
  | element _ _ index _ => [(some .arrayIndex, index)]
  | _ => []

theorem parts_eq (n : Node) :
    n.parts.map Prod.snd = if n.isCall || n.isFolded then [] else n.children := by
  cases n <;> simp [parts, isCall, isFolded, children, Function.comp_def]

theorem mem_children_of_parts {n : Node} (h : (role, c) ∈ n.parts) : c ∈ n.children := by
  have hc : c ∈ n.parts.map Prod.snd := List.mem_map_of_mem h
  rw [parts_eq] at hc
  split at hc
  · cases hc
  · exact hc

theorem flatMap_parts {n : Node} (h : n.isFolded = false) (f : Node → List α) :
    n.parts.flatMap (fun part => f part.2) = if n.isCall then [] else n.children.flatMap f := by
  have row := congrArg (List.flatMap f) n.parts_eq
  rw [List.flatMap_map, h, Bool.or_false] at row
  rw [row]
  cases n.isCall <;> rfl

def misshapen? : Node → Option TestShape
  | immediate .. => none
  | binary op .. => if op.isCondition then none else some (.operator op)
  | other => some (.node other.kind)

end Node

/-- Parts in a row, the notes sent while they are reduced, and what is left of them. -/
inductive Parts : List (Option Role × Node) → List Note → List (Option Node) → Prop where
  | nil : Parts [] [] []
  | needed : Reduction (some n) ns (some n') → Parts rest ns' rs →
      Parts ((some role, n) :: rest) (ns ++ ns') (some n' :: rs)
  | free : Reduction (some n) ns r → Parts rest ns' rs →
      Parts ((none, n) :: rest) (ns ++ ns') (r :: rs)

/-- Why a node is refused of whose parts this is left. -/
inductive Refuses : Node → List (Option Node) → Stop → Prop where
  | divisionByZero : op.apply a b = none →
      Refuses (binary op l r p) [some (immediate a q), some (immediate b q')]
        (.rejected (.divisionByZero Rule.binary.issuer p))
  | strength : l'.immediate? = none → op.reduceStrength b = .error fault →
      Refuses (binary op l r p) [some l', some (immediate b q)] (.fault fault)
  | rangeOverflow : op.apply a = none →
      Refuses (unary op n p) [some (immediate a q)]
        (.rejected (.rangeOverflow Rule.unary.issuer p))
  | indexOutOfBounds : ¬ (0 ≤ v ∧ v.toInt.toNat < array.size.toNat) →
      Refuses (element access array i p) [some (immediate v q)]
        (.rejected (.indexOutOfBounds (Rule.element access).issuer p access.verb array.name v
          array.size))
  | addressOverflow : 0 ≤ v → v.toInt.toNat < array.size.toNat →
      ¬ array.address.toNat + v.toInt.toNat < UInt64.size →
      Refuses (element access array i p) [some (immediate v q)] (.fault .addressOverflow)
  | ifTest : (isDead t' && isDead rs.head?.join) = false → c'.misshapen? = some found →
      Refuses (ifWhen c t e form p) (some c' :: t' :: rs) (.fault (.notComparison .ifWhen found))
  | infiniteLoop : v ≠ 0 →
      Refuses (whileLoop c b p) [some (immediate v q), b']
        (.rejected (.infiniteLoop Rule.whileLoop.issuer p))
  | whileTest : b'.isEmptyBlock = false → c'.misshapen? = some found →
      Refuses (whileLoop c b p) [some c', some b'] (.fault (.notComparison .whileLoop found))
  | folded : n.isFolded = true → Refuses n [] (.fault (.alreadyFolded n.kind))

/-- A node, the notes sent before the run on it stops, and the stop. -/
inductive Halt : Node → List Note → Stop → Prop where
  | part : n.parts = before ++ (role, c) :: after → Parts before ns rs → Halt c ns' stop →
      Halt n (ns ++ ns') stop
  | vanished : n.parts = before ++ (some role, c) :: after → Parts before ns rs →
      Reduction (some c) ns' none → Halt n (ns ++ ns') (.fault (.vanished role))
  | refused : Parts n.parts ns rs → Refuses n rs stop → Halt n ns stop

/-! ### The parts before the node -/

namespace Node

def rewriteParts : List (Option Role × Node) → Pass (List (Option Node))
  | [] => return []
  | (none, n) :: rest => do
      let r ← n.rewrite
      return r :: (← rewriteParts rest)
  | (some role, n) :: rest => do
      let n ← (← n.rewrite) |> required role
      return some n :: (← rewriteParts rest)

def withoutDead (rs : List (Option Node)) : List Node :=
  rs.flatMap fun r => if isDead r then [] else r.toList

def finish : Node → List (Option Node) → Pass (Option Node)
  | block _ p, rs => return some (block (withoutDead rs) p)
  | assign _ _ p, [some target, some value] => return some (assign target value p)
  | ifWhen _ _ _ form p, some c :: t :: rs => reduceIf c t rs.head?.join form p
  | whileLoop _ _ p, [some c, b] => reduceWhile c b p
  | binary op _ _ p, [some l, some r] => some <$> reduceBinary op l r p
  | unary op _ p, [some n] => some <$> reduceUnary op n p
  | element access array _ p, [some i] => some <$> reduceElement access array i p
  | foldedIf .., _ => .fault (.alreadyFolded .foldedIfWhen)
  | foldedWhile .., _ => .fault (.alreadyFolded .foldedWhile)
  | leaf, _ => return some leaf

theorem rewriteAll_eq (ss : List Node) :
    rewriteAll ss = withoutDead <$> rewriteParts (ss.map (none, ·)) := by
  induction ss with
  | nil => simp [rewriteAll, rewriteParts, withoutDead]
  | cons s rest ih =>
    simp only [rewriteAll, ih, List.map_cons, rewriteParts, map_bind, bind_map_left, map_pure]
    congr 1
    funext r
    congr 1
    funext rs
    cases dead : isDead r <;> simp [withoutDead, dead]

/-- A pass over a node is a pass over its parts, and then the rule of the node. -/
theorem rewrite_eq (n : Node) : n.rewrite = rewriteParts n.parts >>= n.finish := by
  cases n with
  | block ss p =>
    rw [rewrite, rewriteAll_eq, bind_map_left]
    rfl
  | ifWhen c t e form p =>
    cases e <;> simp [rewrite, rewriteSlot, parts, rewriteParts, finish]
  | _ => simp [rewrite, parts, rewriteParts, finish]

end Node

namespace Parts
open Pass

theorem cons (hn : Reduction (some n) ns r) (present : role.isSome = true → r.isSome = true)
    (hrest : Parts rest ns' rs) : Parts ((role, n) :: rest) (ns ++ ns') (r :: rs) := by
  cases role with
  | none => exact .free hn hrest
  | some role =>
    obtain ⟨n', rfl⟩ := Option.isSome_iff_exists.mp (present rfl)
    exact .needed hn hrest

theorem follows (h : Parts row ns rs) : (rewriteParts row).Follows ⟨ns, .ok rs⟩ := by
  induction h with
  | nil => exact follows_pure
  | needed hn _ ih =>
    rw [rewriteParts]
    exact follows_required hn.follows_node (ih.bind_pure rfl)
  | free hn _ ih =>
    rw [rewriteParts]
    exact hn.follows_node.bind (ih.bind_pure rfl)

theorem follows_error (h : Parts before ns rs)
    (hrest : (rewriteParts rest).Follows ⟨ns', .error stop⟩) :
    (rewriteParts (before ++ rest)).Follows ⟨ns ++ ns', .error stop⟩ := by
  induction h with
  | nil => exact hrest
  | needed hn _ ih =>
    rw [List.cons_append, rewriteParts, List.append_assoc]
    exact follows_required hn.follows_node ih.bind_error
  | free hn _ ih =>
    rw [List.cons_append, rewriteParts, List.append_assoc]
    exact hn.follows_node.bind ih.bind_error

end Parts

/-! ### Refusals -/

namespace Node
open Pass

theorem follows_misshapen (h : c.misshapen? = some found) :
    (splitTest construct c).Follows ⟨[], .error (.fault (.notComparison construct found))⟩ := by
  cases c with
  | immediate v q => cases h
  | binary op l r q =>
    rw [misshapen?] at h
    split at h
    · cases h
    · rename_i hop
      cases h
      rw [splitTest, if_neg hop]
      exact follows_fault
  | _ => cases h; exact follows_fault

theorem follows_first_error (h : c.rewrite.Follows ⟨ns, .error stop⟩) :
    (rewriteParts ((role, c) :: rest)).Follows ⟨ns, .error stop⟩ := by
  cases role <;> exact h.bind_error

theorem immediate?_of_misshapen {c : Node} (h : c.misshapen? = some found) :
    c.immediate? = none := by
  cases c with
  | immediate v q => cases h
  | _ => rfl

theorem comparison_of_misshapen {c : Node} (h : c.misshapen? = none) (open_ : c.immediate? = none) :
    ∃ op l r q, c = binary op l r q ∧ op.isCondition = true := by
  cases c with
  | immediate v q => cases open_
  | binary op l r q =>
    rw [misshapen?] at h
    split at h
    · exact ⟨op, l, r, q, rfl, ‹_›⟩
    · cases h
  | _ => cases h

end Node

namespace Refuses
open Pass

theorem follows (h : Refuses n rs stop) : (n.finish rs).Follows ⟨[], .error stop⟩ := by
  cases h with
  | divisionByZero hv =>
    rw [finish]
    apply Follows.map_error
    simp only [reduceBinary, immediate?_immediate, hv]
    exact follows_reject
  | strength hl hs =>
    rw [finish]
    apply Follows.map_error
    simp only [reduceBinary, hl, immediate?_immediate, hs]
    exact follows_fault
  | rangeOverflow hv =>
    rw [finish]
    apply Follows.map_error
    simp only [reduceUnary, immediate?_immediate, hv]
    exact follows_reject
  | indexOutOfBounds outside =>
    rw [finish]
    apply Follows.map_error
    simp only [reduceElement, immediate?_immediate, if_neg outside]
    exact follows_reject
  | addressOverflow low high overflow =>
    rw [finish]
    apply Follows.map_error
    simp only [reduceElement, immediate?_immediate, if_pos (And.intro low high), if_neg overflow]
    exact follows_fault
  | ifTest alive hc =>
    rw [finish, reduceIf, alive]
    simp only [immediate?_of_misshapen hc]
    exact (follows_misshapen hc).bind_error
  | infiniteLoop hv =>
    rw [finish]
    unfold reduceWhile
    simp only [immediate?_immediate, if_pos hv]
    exact follows_reject
  | whileTest alive hc =>
    rw [finish]
    unfold reduceWhile
    simp only [immediate?_of_misshapen hc, alive]
    exact (follows_misshapen hc).bind_error
  | folded hn =>
    cases n with
    | foldedIf | foldedWhile => exact follows_fault
    | _ => cases hn

end Refuses

namespace Halt
open Pass

theorem follows (h : Halt n ns stop) : n.rewrite.Follows ⟨ns, .error stop⟩ := by
  induction h with
  | part split before _ ih =>
    rw [rewrite_eq, split]
    exact (before.follows_error (follows_first_error ih)).bind_error
  | vanished split before gone =>
    rw [rewrite_eq, split]
    exact (before.follows_error (gone.follows_node.bind_last follows_fault.bind_error)).bind_error
  | refused parts refused =>
    rw [rewrite_eq]
    exact parts.follows.bind_last refused.follows

end Halt

/-! ### Every run ends in one of the two ways -/

namespace Node

def Ends (n : Node) : Prop :=
  (∃ ns r, Reduction (some n) ns r) ∨ ∃ ns stop, Halt n ns stop

/-- Of a row of parts all are reduced, or there is a first one that is not as it has to be. -/
theorem parts_cases {row : List (Option Role × Node)} (h : ∀ part ∈ row, part.2.Ends) :
    (∃ ns rs, Parts row ns rs) ∨
    ∃ before role c after ns rs, row = before ++ (role, c) :: after ∧ Parts before ns rs ∧
      ((∃ ns' stop, Halt c ns' stop) ∨
        ∃ needed ns', role = some needed ∧ Reduction (some c) ns' none) := by
  induction row with
  | nil => exact .inl ⟨[], [], .nil⟩
  | cons part rest ih =>
    obtain ⟨role, c⟩ := part
    obtain ⟨first, others⟩ := List.forall_mem_cons.mp h
    obtain ⟨ns, r, hc⟩ | hc := first
    · by_cases gone : ∃ needed, role = some needed ∧ r = none
      · obtain ⟨needed, rfl, rfl⟩ := gone
        exact .inr ⟨[], _, c, rest, [], [], rfl, .nil, .inr ⟨needed, ns, rfl, hc⟩⟩
      · have present : role.isSome = true → r.isSome = true := by
          cases role <;> cases r <;> simp at gone ⊢
        obtain ⟨ns', rs, hrest⟩ | ⟨before, role', c', after, ns', rs, rfl, hbefore, stops⟩ :=
          ih others
        · exact .inl ⟨_, _, .cons hc present hrest⟩
        · exact .inr ⟨(role, c) :: before, role', c', after, _, _, rfl,
            .cons hc present hbefore, stops⟩
    · exact .inr ⟨[], role, c, rest, [], [], rfl, .nil, .inl hc⟩

theorem reduction_block (h : Parts (ss.map (none, ·)) ns rs) (p : Option Position) :
    Reduction (some (block ss p)) ns (some (block (withoutDead rs) p)) := by
  induction ss generalizing ns rs with
  | nil => cases h; exact .blockNil
  | cons s rest ih =>
    cases h with
    | @free _ _ r _ _ rs hs hrest =>
      cases dead : isDead r with
      | true =>
        have others : withoutDead (r :: rs) = withoutDead rs := by simp [withoutDead, dead]
        rw [others]
        exact .blockDrop hs dead (ih hrest)
      | false =>
        cases r with
        | none => cases dead
        | some n =>
          have left : withoutDead (some n :: rs) = n :: withoutDead rs := by
            simp only [withoutDead, List.flatMap_cons, dead]
            rfl
          rw [left]
          exact .blockKeep hs dead (ih hrest)

theorem binary_cases (hl : Reduction (some l) ns (some l'))
    (hr : Reduction (some r) ns' (some r')) (op : BinaryOp) (p : Option Position) :
    (∃ ns n, Reduction (some (binary op l r p)) ns n) ∨
      ∃ stop, Refuses (binary op l r p) [some l', some r'] stop := by
  cases open_r : r'.immediate? with
  | none => exact .inl ⟨_, _, .binaryKept hl hr (.inr open_r) (by simp [open_r])⟩
  | some b =>
    obtain ⟨q, rfl⟩ := immediate?_eq_some.mp open_r
    cases open_l : l'.immediate? with
    | some a =>
      obtain ⟨q', rfl⟩ := immediate?_eq_some.mp open_l
      cases hv : op.apply a b with
      | none => exact .inr ⟨_, .divisionByZero hv⟩
      | some v => exact .inl ⟨_, _, .binaryFolded hl hr hv⟩
    | none =>
      cases hs : op.reduceStrength b with
      | error fault => exact .inr ⟨_, .strength open_l hs⟩
      | ok reduced =>
        cases reduced with
        | some reduced => exact .inl ⟨_, _, .binaryShifted hl open_l hr hs⟩
        | none =>
          refine .inl ⟨_, _, .binaryKept hl hr (.inl open_l) fun b' hb => ?_⟩
          cases hb
          exact hs

theorem unary_cases (hn : Reduction (some n) ns (some n')) (op : UnaryOp) (p : Option Position) :
    (∃ ns r, Reduction (some (unary op n p)) ns r) ∨
      ∃ stop, Refuses (unary op n p) [some n'] stop := by
  cases open_n : n'.immediate? with
  | none => exact .inl ⟨_, _, .unaryKept hn open_n⟩
  | some a =>
    obtain ⟨q, rfl⟩ := immediate?_eq_some.mp open_n
    cases hv : op.apply a with
    | none => exact .inr ⟨_, .rangeOverflow hv⟩
    | some v => exact .inl ⟨_, _, .unaryFolded hn hv⟩

theorem element_cases (hi : Reduction (some i) ns (some i')) (access : Access) (array : ArrayRef)
    (p : Option Position) :
    (∃ ns r, Reduction (some (element access array i p)) ns r) ∨
      ∃ stop, Refuses (element access array i p) [some i'] stop := by
  cases open_i : i'.immediate? with
  | none => exact .inl ⟨_, _, .elementKept hi open_i⟩
  | some v =>
    obtain ⟨q, rfl⟩ := immediate?_eq_some.mp open_i
    by_cases inside : 0 ≤ v ∧ v.toInt.toNat < array.size.toNat
    · by_cases fits : array.address.toNat + v.toInt.toNat < UInt64.size
      · exact .inl ⟨_, _, .elementResolved hi inside.1 inside.2 fits⟩
      · exact .inr ⟨_, .addressOverflow inside.1 inside.2 fits⟩
    · exact .inr ⟨_, .indexOutOfBounds inside⟩

theorem if_cases (hc : Reduction (some c) ns (some c')) (ht : Reduction (some t) ns₁ t')
    (he : Reduction e ns₂ rs.head?.join) (form : IfForm) (p : Option Position) :
    (∃ ns r, Reduction (some (ifWhen c t e form p)) ns r) ∨
      ∃ stop, Refuses (ifWhen c t e form p) (some c' :: t' :: rs) stop := by
  cases dead : isDead t' && isDead rs.head?.join with
  | true =>
    rw [Bool.and_eq_true] at dead
    exact .inl ⟨_, _, .ifEmpty hc ht he dead.1 dead.2⟩
  | false =>
    cases shape : c'.misshapen? with
    | some found => exact .inr ⟨_, .ifTest dead shape⟩
    | none =>
      cases open_c : c'.immediate? with
      | none =>
        obtain ⟨op, l, r, q, rfl, hop⟩ := comparison_of_misshapen shape open_c
        exact .inl ⟨_, _, .ifFused hc hop ht he dead⟩
      | some v =>
        obtain ⟨q, rfl⟩ := immediate?_eq_some.mp open_c
        by_cases hv : v = 0
        · subst hv
          exact .inl ⟨_, _, .ifAlwaysFalse hc ht he dead⟩
        · exact .inl ⟨_, _, .ifAlwaysTrue hc ht he dead hv⟩

theorem while_cases (hc : Reduction (some c) ns (some c')) (hb : Reduction (some b) ns' b')
    (p : Option Position) :
    (∃ ns r, Reduction (some (whileLoop c b p)) ns r) ∨
      ∃ stop, Refuses (whileLoop c b p) [some c', b'] stop := by
  cases open_c : c'.immediate? with
  | some v =>
    obtain ⟨q, rfl⟩ := immediate?_eq_some.mp open_c
    by_cases hv : v = 0
    · subst hv
      exact .inl ⟨_, _, .whileAlwaysFalse hc hb⟩
    · exact .inr ⟨_, .infiniteLoop hv⟩
  | none =>
    cases dead : isDead b' with
    | true => exact .inl ⟨_, _, .whileEmpty hc open_c hb dead⟩
    | false =>
      cases b' with
      | none => cases dead
      | some body =>
        cases shape : c'.misshapen? with
        | some found => exact .inr ⟨_, .whileTest dead shape⟩
        | none =>
          obtain ⟨op, l, r, q, rfl, hop⟩ := comparison_of_misshapen shape open_c
          exact .inl ⟨_, _, .whileFused hc hop hb dead⟩

/-- A node whose parts are reduced is reduced or refused. -/
theorem reduced_or_refused {n : Node} (h : Parts n.parts ns rs) :
    (∃ ns r, Reduction (some n) ns r) ∨ ∃ stop, Refuses n rs stop := by
  cases n with
  | block ss p => exact .inl ⟨_, _, reduction_block h p⟩
  | assign target value p =>
    obtain _ | ⟨ht, _ | ⟨hv, ⟨⟩⟩⟩ := h
    exact .inl ⟨_, _, .assign ht hv⟩
  | ifWhen c t e form p =>
    cases e with
    | none =>
      obtain _ | ⟨hc, _ | _ | ⟨ht, ⟨⟩⟩⟩ := h
      exact if_cases hc ht .skip form p
    | some e =>
      obtain _ | ⟨hc, _ | _ | ⟨ht, _ | _ | ⟨he, ⟨⟩⟩⟩⟩ := h
      exact if_cases hc ht he form p
  | whileLoop c b p =>
    obtain _ | ⟨hc, _ | _ | ⟨hb, ⟨⟩⟩⟩ := h
    exact while_cases hc hb p
  | binary op l r p =>
    obtain _ | ⟨hl, _ | ⟨hr, ⟨⟩⟩⟩ := h
    exact binary_cases hl hr op p
  | unary op n p =>
    obtain _ | ⟨hn, ⟨⟩⟩ := h
    exact unary_cases hn op p
  | element access array i p =>
    obtain _ | ⟨hi, ⟨⟩⟩ := h
    exact element_cases hi access array p
  | foldedIf | foldedWhile => cases h; exact .inr ⟨_, .folded rfl⟩
  | declare => exact .inl ⟨_, _, .declare⟩
  | invoke => exact .inl ⟨_, _, .invoke⟩
  | immediate => exact .inl ⟨_, _, .immediate⟩
  | cell => exact .inl ⟨_, _, .cell⟩

theorem ends (n : Node) : n.Ends := by
  induction n using children_induction with
  | step n ih =>
    obtain ⟨ns, rs, parts⟩ | ⟨before, role, c, after, ns, rs, split, hbefore, stops⟩ :=
      parts_cases fun part hpart => ih part.2 (mem_children_of_parts hpart)
    · obtain reduced | ⟨stop, refused⟩ := reduced_or_refused parts
      · exact .inl reduced
      · exact .inr ⟨_, _, .refused parts refused⟩
    · obtain ⟨ns', stop, halt⟩ | ⟨needed, ns', rfl, gone⟩ := stops
      · exact .inr ⟨_, _, .part split hbefore halt⟩
      · exact .inr ⟨_, _, .vanished split hbefore gone⟩

end Node

theorem Reduction.optimize_eq (h : Reduction (some n) ns r) : n.optimize = ⟨ns, .ok r⟩ := by
  rw [optimize, h.follows_node.run]

theorem Halt.optimize_eq (h : Halt n ns stop) : n.optimize = ⟨ns, .error stop⟩ := by
  rw [optimize, h.follows.run]

namespace Node

/-- Every optimizer does to a tree what a new one does to it. -/
theorem follows_optimize (n : Node) : n.rewrite.Follows n.optimize := by
  obtain ⟨ns, r, h⟩ | ⟨ns, stop, h⟩ := n.ends
  · rw [h.optimize_eq]
    exact h.follows_node
  · rw [h.optimize_eq]
    exact h.follows

theorem optimizeSlot_some (n : Node) : optimizeSlot (some n) = n.optimize := by
  rw [optimizeSlot, rewriteSlot_some, optimize]

theorem follows_optimizeSlot (s : Option Node) : (rewriteSlot s).Follows (optimizeSlot s) := by
  cases s with
  | none => exact Reduction.skip.follows
  | some n =>
    rw [optimizeSlot_some, rewriteSlot_some]
    exact n.follows_optimize

theorem reduction_of_outcome {n : Node} (h : n.optimize.outcome = .ok r) :
    Reduction (some n) n.optimize.notes r := by
  obtain ⟨ns, r', hn⟩ | ⟨ns, stop, hn⟩ := n.ends
  · rw [hn.optimize_eq] at h ⊢
    cases h
    exact hn
  · rw [hn.optimize_eq] at h
    cases h

theorem halt_of_outcome {n : Node} (h : n.optimize.outcome = .error stop) :
    Halt n n.optimize.notes stop := by
  obtain ⟨ns, r, hn⟩ | ⟨ns, stop', hn⟩ := n.ends
  · rw [hn.optimize_eq] at h
    cases h
  · rw [hn.optimize_eq] at h ⊢
    cases h
    exact hn

def reduct? (n : Node) : Option Node :=
  match n.optimize.outcome with
  | .ok r => r
  | .error _ => none

def constant? (n : Node) : Option Int16 :=
  n.reduct?.bind immediate?

end Node

namespace Reduction

theorem reduct?_eq (h : Reduction (some n) ns r) : n.reduct? = r := by
  rw [reduct?, h.optimize_eq]

theorem slot_eq (h : Reduction s ns r) : s.bind reduct? = r := by
  cases s with
  | none => cases h; rfl
  | some n => exact h.reduct?_eq

theorem constant?_eq (h : Reduction (some n) ns (some n')) : n.constant? = n'.immediate? := by
  rw [constant?, h.reduct?_eq, Option.bind_some]

theorem of_constant? (h : n.constant? = some v) :
    ∃ ns q, Reduction (some n) ns (some (.immediate v q)) := by
  obtain ⟨n', hn, hv⟩ := Option.bind_eq_some_iff.mp h
  obtain ⟨q, rfl⟩ := immediate?_eq_some.mp hv
  unfold reduct? at hn
  split at hn
  · rename_i r hr
    exact ⟨_, q, hn ▸ reduction_of_outcome hr⟩
  · cases hn

end Reduction

end EventScript
