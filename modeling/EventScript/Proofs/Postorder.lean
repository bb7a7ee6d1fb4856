import EventScript.Proofs.Halt
import EventScript.Proofs.Shift

/-! Nodes are finished in post-order, and each one is judged when it is finished: something is wrong
with it, or something is announced about it, or neither. Both are said in terms of what its parts
are reduced to. -/
namespace EventScript
open Node

namespace Node

mutual

/-- The nodes of a tree that are not in the arguments of a call, each after its parts. -/
def postorder : Node → List Node
  | block statements p => postorderAll statements ++ [block statements p]
  | assign target value p => target.postorder ++ (value.postorder ++ [assign target value p])
  | ifWhen condition onTrue onFalse form p =>
      condition.postorder ++ (onTrue.postorder ++ (postorderSlot onFalse ++
        [ifWhen condition onTrue onFalse form p]))
  | foldedIf op left right onTrue onFalse form p =>
      left.postorder ++ (right.postorder ++ (onTrue.postorder ++ (postorderSlot onFalse ++
        [foldedIf op left right onTrue onFalse form p])))
  | whileLoop condition body p =>
      condition.postorder ++ (body.postorder ++ [whileLoop condition body p])
  | foldedWhile op left right body p =>
      left.postorder ++ (right.postorder ++ (body.postorder ++ [foldedWhile op left right body p]))
  | binary op left right p => left.postorder ++ (right.postorder ++ [binary op left right p])
  | unary op operand p => operand.postorder ++ [unary op operand p]
  | element access array index p => index.postorder ++ [element access array index p]
  | other => [other]

def postorderAll : List Node → List Node
  | [] => []
  | node :: rest => node.postorder ++ postorderAll rest

def postorderSlot : Option Node → List Node
  | none => []
  | some node => node.postorder

end

theorem postorderAll_eq (ns : List Node) : postorderAll ns = ns.flatMap postorder := by
  induction ns with
  | nil => rfl
  | cons n rest ih => rw [postorderAll, ih, List.flatMap_cons]

theorem postorderSlot_eq (s : Option Node) : postorderSlot s = s.toList.flatMap postorder := by
  cases s <;> simp [postorderSlot]

theorem postorder_eq (n : Node) :
    n.postorder = (if n.isCall then [] else n.children.flatMap postorder) ++ [n] := by
  cases n <;> simp [postorder, isCall, children, postorderAll_eq, postorderSlot_eq]

theorem mem_postorder {n x : Node} : x ∈ n.postorder ↔ x ∈ n.outer := by
  induction n using children_induction with
  | step n ih =>
    rw [postorder_eq, mem_outer, List.mem_append, List.mem_singleton, or_comm]
    cases n.isCall with
    | true => simp
    | false =>
      simp only [Bool.false_eq_true, if_false, List.mem_flatMap, true_and]
      constructor
      · rintro (rfl | ⟨c, hc, hx⟩)
        · exact .inl rfl
        · exact .inr ⟨c, hc, (ih c hc).mp hx⟩
      · rintro (rfl | ⟨c, hc, hx⟩)
        · exact .inl rfl
        · exact .inr ⟨c, hc, (ih c hc).mpr hx⟩

/-- What is wrong with a node once its parts are reduced, if anything is. -/
def offence : Node → Option Cause
  | binary op left right _ =>
      if (op = .div ∨ op = .mod) ∧ left.constant?.isSome = true ∧ right.constant? = some 0 then
        some .divisionByZero
      else none
  | unary op operand _ =>
      if op = .abs ∧ operand.constant? = some (-32768) then some .rangeOverflow else none
  | whileLoop condition _ _ =>
      match condition.constant? with
      | some value => if value ≠ 0 then some .infiniteLoop else none
      | none => none
  | element _ array index _ =>
      match index.constant? with
      | some value =>
          if value < 0 ∨ (array.size.toNat : Int) ≤ value.toInt then
            some (.indexOutOfBounds array.name value array.size)
          else none
      | none => none
  | _ => none

def rule? : Node → Option Rule
  | binary .. => some .binary
  | unary .. => some .unary
  | element access .. => some (.element access)
  | ifWhen .. => some .ifWhen
  | whileLoop .. => some .whileLoop
  | _ => none

/-- The rejection tells what is wrong with this node, names its place and comes from its rule. -/
structure Explains (n : Node) (e : Rejection) : Prop where
  cause : n.offence = some e.cause
  position : e.position = n.position
  issuer : n.rule?.map Rule.issuer = some e.issuer

/-- What is announced about a node whose parts are reduced, if anything is. -/
def remark? : Node → Option Simplification
  | binary op left right _ =>
      match left.constant?, right.constant? with
      | some _, some _ => some .binaryFolded
      | none, some b =>
          if isPowerOfTwo b then
            match op with
            | .mul => some .multiplicationShifted
            | .div => some .divisionShifted
            | _ => none
          else none
      | _, none => none
  | unary _ operand _ => operand.constant?.map fun _ => .unaryFolded
  | element access _ index _ => index.constant?.map fun _ => .elementResolved access
  | ifWhen condition onTrue onFalse _ _ =>
      if isDead onTrue.reduct? && isDead (onFalse.bind reduct?) then some .ifEmpty
      else
        match condition.constant? with
        | some value => if value ≠ 0 then some .ifAlwaysTrue else some .ifAlwaysFalse
        | none => some .ifFused
  | whileLoop condition body _ =>
      match condition.constant? with
      | some _ => some .whileAlwaysFalse
      | none => if isDead body.reduct? then some .whileEmpty else some .whileFused
  | _ => none

def note? (n : Node) : Option Note :=
  n.remark?.map fun change => ⟨change, n.position⟩

end Node

theorem BinaryOp.apply_eq_none_iff {op : BinaryOp} :
    op.apply a b = none ↔ (op = .div ∨ op = .mod) ∧ b = 0 := by
  cases op <;> simp [apply]

theorem UnaryOp.apply_eq_none_iff {op : UnaryOp} :
    op.apply a = none ↔ op = .abs ∧ a = -32768 := by
  have least : Int16.minValue = -32768 := rfl
  cases op <;> simp [apply, least]

theorem index_inside_iff {v : Int16} {size : UInt64} :
    ¬ (v < 0 ∨ (size.toNat : Int) ≤ v.toInt) ↔ 0 ≤ v ∧ v.toInt.toNat < size.toNat := by
  have zero : (0 : Int16).toInt = 0 := rfl
  rw [Int16.lt_iff_toInt_lt, Int16.le_iff_toInt_le, zero]
  omega

def Passes (nodes : List Node) (ns : List Note) : Prop :=
  (∀ n ∈ nodes, n.offence = none) ∧ ns = nodes.filterMap note?

namespace Passes

theorem nil : Passes [] [] :=
  ⟨List.forall_mem_nil _, rfl⟩

theorem append (h : Passes nodes ns) (h' : Passes nodes' ns') :
    Passes (nodes ++ nodes') (ns ++ ns') := by
  refine ⟨List.forall_mem_append.mpr ⟨h.1, h'.1⟩, ?_⟩
  rw [List.filterMap_append, h.2, h'.2]

theorem silent (clean : n.offence = none) (h : n.remark? = none) : Passes [n] [] :=
  ⟨List.forall_mem_singleton.mpr clean, by simp [note?, h]⟩

theorem announced (clean : n.offence = none) (h : n.remark? = some change) :
    Passes [n] [⟨change, n.position⟩] :=
  ⟨List.forall_mem_singleton.mpr clean, by simp [note?, h]⟩

theorem append_silent (h : Passes nodes ns) (clean : n.offence = none)
    (quiet : n.remark? = none) : Passes (nodes ++ [n]) ns := by
  rw [← List.append_nil ns]
  exact h.append (.silent clean quiet)

theorem of_block (h : Passes (Node.block ss p).postorder ns) : Passes (postorderAll ss) ns := by
  refine ⟨fun n hn => h.1 n (List.mem_append_left _ hn), ?_⟩
  rw [h.2, postorder, List.filterMap_append]
  exact List.append_nil _

end Passes

namespace Reduction

theorem remark?_kept (open_ : l.constant? = none ∨ r.constant? = none)
    (hs : ∀ b, r.constant? = some b → op.reduceStrength b = .ok none) :
    (binary op l r p).remark? = none := by
  cases hr : r.constant? with
  | none => simp [remark?, hr]
  | some b =>
    have hl : l.constant? = none := by simpa [hr] using open_
    have strength := hs b hr
    rw [BinaryOp.reduceStrength_eq] at strength
    cases power : isPowerOfTwo b <;> cases op <;>
      simp_all [remark?, BinaryOp.shift?]

theorem passes (h : Reduction s ns r) : Passes (postorderSlot s) ns := by
  induction h with
  | skip => exact .nil
  | blockNil => exact .silent rfl rfl
  | blockDrop _ _ _ ihs ihrest => exact (ihs.append ihrest.of_block).append_silent rfl rfl
  | blockKeep _ _ _ ihs ihrest => exact (ihs.append ihrest.of_block).append_silent rfl rfl
  | assign _ _ iht ihv => exact iht.append (ihv.append_silent rfl rfl)
  | ifEmpty hc ht he dead dead' ihc iht ihe =>
    simp only [List.append_assoc]
    refine ihc.append (iht.append (ihe.append (.announced rfl ?_)))
    simp [remark?, ht.reduct?_eq, he.slot_eq, dead, dead']
  | ifAlwaysTrue hc ht he alive hv ihc iht ihe =>
    simp only [List.append_assoc]
    refine ihc.append (iht.append (ihe.append (.announced rfl ?_)))
    simp only [remark?, ht.reduct?_eq, he.slot_eq, alive, hc.constant?_eq, immediate?_immediate]
    simp [hv]
  | ifAlwaysFalse hc ht he alive ihc iht ihe =>
    simp only [List.append_assoc]
    refine ihc.append (iht.append (ihe.append (.announced rfl ?_)))
    simp only [remark?, ht.reduct?_eq, he.slot_eq, alive, hc.constant?_eq, immediate?_immediate]
    simp
  | ifFused hc _ ht he alive ihc iht ihe =>
    simp only [List.append_assoc]
    refine ihc.append (iht.append (ihe.append (.announced rfl ?_)))
    simp only [remark?, ht.reduct?_eq, he.slot_eq, alive, hc.constant?_eq, immediate?_binary]
    simp
  | whileAlwaysFalse hc _ ihc ihb =>
    rw [List.append_assoc]
    refine ihc.append (ihb.append (.announced ?_ ?_))
    · simp [offence, hc.constant?_eq]
    · simp [remark?, hc.constant?_eq]
  | whileEmpty hc open_ hb dead ihc ihb =>
    rw [List.append_assoc]
    refine ihc.append (ihb.append (.announced ?_ ?_))
    · simp [offence, hc.constant?_eq, open_]
    · simp [remark?, hc.constant?_eq, open_, hb.reduct?_eq, dead]
  | whileFused hc _ hb alive ihc ihb =>
    rw [List.append_assoc]
    refine ihc.append (ihb.append (.announced ?_ ?_))
    · simp [offence, hc.constant?_eq]
    · simp [remark?, hc.constant?_eq, hb.reduct?_eq, alive]
  | binaryFolded hl hr hv ihl ihr =>
    rw [List.append_assoc]
    refine ihl.append (ihr.append (.announced ?_ ?_))
    · have fine := mt BinaryOp.apply_eq_none_iff.mpr (Option.ne_none_iff_exists'.mpr ⟨_, hv⟩)
      simpa [offence, hl.constant?_eq, hr.constant?_eq] using fine
    · simp [remark?, hl.constant?_eq, hr.constant?_eq]
  | binaryShifted hl open_ hr hs ihl ihr =>
    rw [List.append_assoc]
    refine ihl.append (ihr.append (.announced ?_ ?_))
    · simp [offence, hl.constant?_eq, open_]
    · obtain ⟨power, -, ⟨rfl, -⟩ | ⟨rfl, -⟩⟩ := BinaryOp.reduceStrength_eq_some hs <;>
        simp [remark?, hl.constant?_eq, hr.constant?_eq, open_, power]
  | binaryKept hl hr open_ hs ihl ihr =>
    rw [← hl.constant?_eq, ← hr.constant?_eq] at open_
    rw [← hr.constant?_eq] at hs
    refine ihl.append (ihr.append_silent ?_ (remark?_kept open_ hs))
    rcases open_ with h | h <;> simp [offence, h]
  | unaryFolded hn hv ih =>
    refine ih.append (.announced ?_ ?_)
    · have fine := mt UnaryOp.apply_eq_none_iff.mpr (Option.ne_none_iff_exists'.mpr ⟨_, hv⟩)
      simpa [offence, hn.constant?_eq] using fine
    · simp [remark?, hn.constant?_eq]
  | unaryKept hn open_ ih =>
    refine ih.append_silent ?_ ?_
    · simp [offence, hn.constant?_eq, open_]
    · simp [remark?, hn.constant?_eq, open_]
  | elementResolved hi low high _ ih =>
    refine ih.append (.announced ?_ ?_)
    · simp only [offence, hi.constant?_eq, immediate?_immediate,
        if_neg (index_inside_iff.mpr ⟨low, high⟩)]
    · simp [remark?, hi.constant?_eq]
  | elementKept hi open_ ih =>
    refine ih.append_silent ?_ ?_
    · simp [offence, hi.constant?_eq, open_]
    · simp [remark?, hi.constant?_eq, open_]
  | declare | invoke | immediate | cell => exact .silent rfl rfl

end Reduction

/-! ### The node for which a script is rejected -/

theorem Parts.passes (h : Parts row ns rs) :
    Passes (row.flatMap fun part => part.2.postorder) ns := by
  induction h with
  | nil => exact .nil
  | needed hn _ ih => exact hn.passes.append ih
  | free hn _ ih => exact hn.passes.append ih

theorem Refuses.explains (h : Refuses n rs (.rejected e)) (parts : Parts n.parts ns rs) :
    n.Explains e := by
  cases h with
  | divisionByZero hv =>
    obtain _ | ⟨hl, _ | ⟨hr, ⟨⟩⟩⟩ := parts
    refine ⟨?_, rfl, rfl⟩
    have bad := BinaryOp.apply_eq_none_iff.mp hv
    simp only [offence, hl.constant?_eq, hr.constant?_eq, immediate?_immediate, bad]
    rfl
  | rangeOverflow hv =>
    obtain _ | ⟨hn, ⟨⟩⟩ := parts
    refine ⟨?_, rfl, rfl⟩
    have bad := UnaryOp.apply_eq_none_iff.mp hv
    simp only [offence, hn.constant?_eq, immediate?_immediate, bad]
    rfl
  | indexOutOfBounds outside =>
    obtain _ | ⟨hi, ⟨⟩⟩ := parts
    refine ⟨?_, rfl, rfl⟩
    simp only [offence, hi.constant?_eq, immediate?_immediate,
      if_pos (Decidable.not_not.mp (mt index_inside_iff.mp outside))]
    rfl
  | infiniteLoop hv =>
    obtain _ | ⟨hc, _ | _ | ⟨hb, ⟨⟩⟩⟩ := parts
    refine ⟨?_, rfl, rfl⟩
    simp only [offence, hc.constant?_eq, immediate?_immediate, if_pos hv]
    rfl

namespace Node

theorem isFolded_of_parts {n : Node} (h : part ∈ n.parts) : n.isFolded = false := by
  cases n with
  | foldedIf | foldedWhile => cases h
  | _ => rfl

theorem postorder_parts {n : Node} (h : n.isFolded = false) :
    n.postorder = n.parts.flatMap (fun part => part.2.postorder) ++ [n] := by
  rw [postorder_eq, flatMap_parts h]

theorem postorder_split {n : Node} (h : n.parts = before ++ (role, c) :: after) :
    ∃ rest, n.postorder =
      before.flatMap (fun part => part.2.postorder) ++ (c.postorder ++ rest) := by
  have plain : n.isFolded = false := isFolded_of_parts (h ▸ List.mem_append_cons_self)
  refine ⟨after.flatMap (fun part => part.2.postorder) ++ [n], ?_⟩
  rw [postorder_parts plain, h]
  simp

end Node

/-- A script is rejected for the first node with which something is wrong, and the notes are those
of the nodes before it. -/
theorem Halt.first_offence (h : Halt n ns (.rejected e)) :
    ∃ before m after, n.postorder = before ++ m :: after ∧ m.Explains e ∧ Passes before ns := by
  generalize hstop : Stop.rejected e = stop at h
  induction h with
  | part split before _ ih =>
    obtain ⟨earlier, m, later, inside, explains, passes⟩ := ih hstop
    obtain ⟨rest, whole⟩ := postorder_split split
    refine ⟨_, m, later ++ rest, ?_, explains, before.passes.append passes⟩
    rw [whole, inside]
    simp
  | vanished => cases hstop
  | refused parts refused =>
    cases hstop
    refine ⟨_, _, [], postorder_parts ?_, refused.explains parts, parts.passes⟩
    cases refused <;> rfl

end EventScript
