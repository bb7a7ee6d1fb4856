import EventScript.Proofs.Halt

/-! Positions and array names are labels. They are carried along, into the result, the notes and
the rejection, but nothing is decided by them: a pass over a relabelled tree does what the pass over
the tree does, with the labels changed. -/
namespace EventScript
open Node

/-- A change of labels. A position may also be forgotten; a node without one stays without. -/
structure Relabelling where
  position : Position → Option Position
  name : String → String

def Relabelling.total (f : Position → Position) (g : String → String) : Relabelling :=
  ⟨fun p => some (f p), g⟩

def Relabelling.forget : Relabelling :=
  ⟨fun _ => none, id⟩

def ArrayRef.rename (g : String → String) (array : ArrayRef) : ArrayRef :=
  { array with name := g array.name }

def Cause.rename (g : String → String) : Cause → Cause
  | indexOutOfBounds array index size => indexOutOfBounds (g array) index size
  | other => other

def Note.relabel (f : Relabelling) (note : Note) : Note :=
  { note with position := note.position.bind f.position }

namespace Node

mutual

def relabel (f : Relabelling) : Node → Node
  | block statements p => block (relabelAll f statements) (p.bind f.position)
  | assign target value p => assign (target.relabel f) (value.relabel f) (p.bind f.position)
  | ifWhen condition onTrue onFalse form p =>
      ifWhen (condition.relabel f) (onTrue.relabel f) (relabelSlot f onFalse) form
        (p.bind f.position)
  | foldedIf op left right onTrue onFalse form p =>
      foldedIf op (left.relabel f) (right.relabel f) (onTrue.relabel f) (relabelSlot f onFalse) form
        (p.bind f.position)
  | whileLoop condition body p =>
      whileLoop (condition.relabel f) (body.relabel f) (p.bind f.position)
  | foldedWhile op left right body p =>
      foldedWhile op (left.relabel f) (right.relabel f) (body.relabel f) (p.bind f.position)
  | declare entity p => declare entity (p.bind f.position)
  | invoke callee args p => invoke callee (relabelAll f args) (p.bind f.position)
  | binary op left right p => binary op (left.relabel f) (right.relabel f) (p.bind f.position)
  | unary op operand p => unary op (operand.relabel f) (p.bind f.position)
  | immediate value p => immediate value (p.bind f.position)
  | cell access address p => cell access address (p.bind f.position)
  | element access array index p =>
      element access (array.rename f.name) (index.relabel f) (p.bind f.position)

def relabelAll (f : Relabelling) : List Node → List Node
  | [] => []
  | node :: rest => node.relabel f :: relabelAll f rest

def relabelSlot (f : Relabelling) : Option Node → Option Node
  | none => none
  | some node => some (node.relabel f)

end

variable {f : Relabelling}

theorem relabelSlot_eq (s : Option Node) : relabelSlot f s = s.map (relabel f) := by
  cases s <;> rfl

theorem relabelAll_eq (ns : List Node) : relabelAll f ns = ns.map (relabel f) := by
  induction ns with
  | nil => rfl
  | cons n rest ih => rw [relabelAll, ih, List.map_cons]

theorem immediate?_relabel (n : Node) : (n.relabel f).immediate? = n.immediate? := by
  cases n <;> rfl

theorem isEmptyBlock_relabel (n : Node) : (n.relabel f).isEmptyBlock = n.isEmptyBlock := by
  cases n with
  | block ss p => cases ss <;> rfl
  | _ => rfl

theorem isDead_relabel (r : Option Node) : isDead (relabelSlot f r) = isDead r := by
  cases r with
  | none => rfl
  | some n => exact isEmptyBlock_relabel n

end Node

/-- The same rejection, with other labels; the wording changes with the name it quotes. -/
inductive Rejection.Mirrors (f : Relabelling) : Rejection → Rejection → Prop where
  | divisionByZero : Mirrors f (.divisionByZero origin p)
      (.divisionByZero origin (p.bind f.position))
  | infiniteLoop : Mirrors f (.infiniteLoop origin p) (.infiniteLoop origin (p.bind f.position))
  | rangeOverflow : Mirrors f (.rangeOverflow origin p) (.rangeOverflow origin (p.bind f.position))
  | indexOutOfBounds : Mirrors f (.indexOutOfBounds origin p verb array index size)
      (.indexOutOfBounds origin (p.bind f.position) verb (f.name array) index size)

inductive Stop.Mirrors (f : Relabelling) : Stop → Stop → Prop where
  | rejected : e.Mirrors f e' → Mirrors f (.rejected e) (.rejected e')
  | fault : Mirrors f (.fault x) (.fault x)

/-! ### Derivations -/

namespace Node
variable {f : Relabelling}

theorem getD_block_relabel (r : Option Node) :
    (relabelSlot f r).getD (block [] none) = (r.getD (block [] none)).relabel f := by
  cases r <;> rfl

theorem isDead_and_relabel (h : (isDead t && isDead e) = false) :
    (isDead (relabelSlot f t) && isDead (relabelSlot f e)) = false := by
  rw [isDead_relabel, isDead_relabel, h]

theorem head?_join_relabel (rs : List (Option Node)) :
    (rs.map (relabelSlot f)).head?.join = relabelSlot f rs.head?.join := by
  cases rs <;> rfl

theorem kind_relabel (n : Node) : (n.relabel f).kind = n.kind := by
  cases n with
  | declare entity p => cases entity <;> rfl
  | invoke callee args p => cases callee <;> rfl
  | cell access address p => cases access <;> rfl
  | element access array i p => cases access <;> rfl
  | _ => rfl

theorem misshapen?_relabel (n : Node) : (n.relabel f).misshapen? = n.misshapen? := by
  cases n with
  | binary | immediate => rfl
  | _ => exact congrArg (some ∘ TestShape.node) (kind_relabel _)

theorem parts_relabel (n : Node) :
    (n.relabel f).parts = n.parts.map fun part => (part.1, part.2.relabel f) := by
  cases n with
  | block ss p => simp [relabel, parts, relabelAll_eq, Function.comp_def]
  | ifWhen c t e form p => cases e <;> rfl
  | _ => rfl

end Node

section
variable {f : Relabelling}

theorem Reduction.relabel (h : Reduction s ns r) :
    Reduction (relabelSlot f s) (ns.map (Note.relabel f)) (relabelSlot f r) := by
  induction h with
  | skip => exact .skip
  | blockNil => exact .blockNil
  | blockDrop _ dead _ ihs ihrest =>
    rw [List.map_append]
    exact .blockDrop ihs (by rw [isDead_relabel, dead]) ihrest
  | blockKeep _ alive _ ihs ihrest =>
    rw [List.map_append]
    exact .blockKeep ihs (by rw [isEmptyBlock_relabel, alive]) ihrest
  | assign _ _ iht ihv =>
    rw [List.map_append]
    exact .assign iht ihv
  | ifEmpty _ _ _ dead dead' ihc iht ihe =>
    simp only [List.map_append]
    refine .ifEmpty ihc iht ihe ?_ ?_
    · rw [isDead_relabel, dead]
    · rw [isDead_relabel, dead']
  | ifAlwaysTrue _ _ _ alive hv ihc iht ihe =>
    simp only [List.map_append]
    exact .ifAlwaysTrue ihc iht ihe (isDead_and_relabel alive) hv
  | ifAlwaysFalse _ _ _ alive ihc iht ihe =>
    simp only [List.map_append]
    exact .ifAlwaysFalse ihc iht ihe (isDead_and_relabel alive)
  | ifFused _ hop _ _ alive ihc iht ihe =>
    simp only [List.map_append, relabelSlot, Node.relabel, ← getD_block_relabel]
    exact .ifFused ihc hop iht ihe (isDead_and_relabel alive)
  | whileAlwaysFalse _ _ ihc ihb =>
    simp only [List.map_append]
    exact .whileAlwaysFalse ihc ihb
  | whileEmpty _ open_ _ dead ihc ihb =>
    simp only [List.map_append]
    refine .whileEmpty ihc ?_ ihb ?_
    · rw [immediate?_relabel, open_]
    · rw [isDead_relabel, dead]
  | whileFused _ hop _ alive ihc ihb =>
    simp only [List.map_append]
    exact .whileFused ihc hop ihb (by rw [isEmptyBlock_relabel, alive])
  | binaryFolded _ _ hv ihl ihr =>
    simp only [List.map_append]
    exact .binaryFolded ihl ihr hv
  | binaryShifted _ open_ _ hs ihl ihr =>
    simp only [List.map_append]
    exact .binaryShifted ihl (by rw [immediate?_relabel, open_]) ihr hs
  | binaryKept _ _ open_ hs ihl ihr =>
    rw [List.map_append]
    refine .binaryKept ihl ihr ?_ ?_
    · rw [immediate?_relabel, immediate?_relabel]
      exact open_
    · rw [immediate?_relabel]
      exact hs
  | unaryFolded _ hv ih =>
    rw [List.map_append]
    exact .unaryFolded ih hv
  | unaryKept _ open_ ih => exact .unaryKept ih (by rw [immediate?_relabel, open_])
  | elementResolved _ low high fits ih =>
    rw [List.map_append]
    exact .elementResolved ih low high fits
  | elementKept _ open_ ih => exact .elementKept ih (by rw [immediate?_relabel, open_])
  | declare => exact .declare
  | invoke => exact .invoke
  | immediate => exact .immediate
  | cell => exact .cell

theorem Parts.relabel (h : Parts row ns rs) :
    Parts (row.map fun part => (part.1, part.2.relabel f)) (ns.map (Note.relabel f))
      (rs.map (relabelSlot f)) := by
  induction h with
  | nil => exact .nil
  | needed hn _ ih =>
    rw [List.map_append]
    exact .needed hn.relabel ih
  | free hn _ ih =>
    rw [List.map_append]
    exact .free hn.relabel ih

theorem Refuses.relabel (h : Refuses n rs stop) :
    ∃ stop', stop.Mirrors f stop' ∧
      Refuses (n.relabel f) (rs.map (relabelSlot f)) stop' := by
  cases h with
  | divisionByZero hv => exact ⟨_, .rejected .divisionByZero, .divisionByZero hv⟩
  | strength open_ hs => exact ⟨_, .fault, .strength (by rw [immediate?_relabel, open_]) hs⟩
  | rangeOverflow hv => exact ⟨_, .rejected .rangeOverflow, .rangeOverflow hv⟩
  | indexOutOfBounds outside =>
    exact ⟨_, .rejected .indexOutOfBounds, .indexOutOfBounds outside⟩
  | addressOverflow low high overflow => exact ⟨_, .fault, .addressOverflow low high overflow⟩
  | ifTest alive shape =>
    refine ⟨_, .fault, .ifTest ?_ (by rw [misshapen?_relabel, shape])⟩
    rw [head?_join_relabel]
    exact isDead_and_relabel alive
  | infiniteLoop hv => exact ⟨_, .rejected .infiniteLoop, .infiniteLoop hv⟩
  | whileTest alive shape =>
    exact ⟨_, .fault, .whileTest (by rw [isEmptyBlock_relabel, alive])
      (by rw [misshapen?_relabel, shape])⟩
  | folded hn =>
    refine ⟨_, .fault, ?_⟩
    rw [← kind_relabel]
    exact .folded (by cases n <;> first | rfl | cases hn)

theorem Halt.relabel (h : Halt n ns stop) :
    ∃ stop', stop.Mirrors f stop' ∧ Halt (n.relabel f) (ns.map (Note.relabel f)) stop' := by
  induction h with
  | part split before _ ih =>
    obtain ⟨stop', mirrors, halt⟩ := ih
    rw [List.map_append]
    exact ⟨stop', mirrors, .part (by rw [parts_relabel, split, List.map_append]; rfl)
      before.relabel halt⟩
  | vanished split before gone =>
    rw [List.map_append]
    exact ⟨_, .fault, .vanished (by rw [parts_relabel, split, List.map_append]; rfl)
      before.relabel gone.relabel⟩
  | refused parts refused =>
    obtain ⟨stop', mirrors, refused'⟩ := refused.relabel
    exact ⟨stop', mirrors, .refused (by rw [parts_relabel]; exact parts.relabel) refused'⟩

end

/-- The second run does what the first does, with other labels. -/
inductive Traced.Mirrors (f : Relabelling) :
    Traced (Option Node) → Traced (Option Node) → Prop where
  | ok : Mirrors f ⟨ns, .ok r⟩ ⟨ns.map (Note.relabel f), .ok (r.map (Node.relabel f))⟩
  | error : stop.Mirrors f stop' →
      Mirrors f ⟨ns, .error stop⟩ ⟨ns.map (Note.relabel f), .error stop'⟩

theorem Node.mirrors_optimize (f : Relabelling) (n : Node) :
    n.optimize.Mirrors f (n.relabel f).optimize := by
  obtain ⟨ns, r, h⟩ | ⟨ns, stop, h⟩ := n.ends
  · have h' : Reduction (some (n.relabel f)) _ _ := h.relabel
    rw [h.optimize_eq, h'.optimize_eq, relabelSlot_eq]
    exact .ok
  · obtain ⟨stop', mirrors, h'⟩ := h.relabel
    rw [h.optimize_eq, h'.optimize_eq]
    exact .error mirrors

namespace Node

def erased (n : Node) : Node := n.relabel .forget

end Node

/-- The run without positions, in its notes as in its result or rejection. -/
def Traced.erased (x : Traced (Option Node)) : Traced (Option Node) where
  notes := x.notes.map (Note.relabel .forget)
  outcome :=
    match x.outcome with
    | .ok r => .ok (r.map Node.erased)
    | .error (.rejected e) => .error (.rejected { e with position := none })
    | .error (.fault fault) => .error (.fault fault)

theorem Traced.Mirrors.notes_eq {x y : Traced (Option Node)} (h : x.Mirrors f y) :
    y.notes = x.notes.map (Note.relabel f) := by
  cases h <;> rfl

theorem Rejection.Mirrors.forget_eq {e e' : Rejection} (h : e.Mirrors .forget e') :
    e' = { e with position := none } := by
  have none_left (p : Option Position) : p.bind Relabelling.forget.position = none := by
    cases p <;> rfl
  cases h <;> rw [none_left] <;> rfl

theorem Traced.Mirrors.erased_eq {x y : Traced (Option Node)} (h : x.Mirrors .forget y) :
    y = x.erased := by
  cases h with
  | ok => rfl
  | error mirrors =>
    cases mirrors with
    | rejected he => rw [he.forget_eq]; rfl
    | fault => rfl

theorem Rejection.Mirrors.total_eq {e e' : Rejection} (h : e.Mirrors (.total f g) e') :
    e'.cause = e.cause.rename g ∧ e'.issuer = e.issuer ∧ e'.position = e.position.map f := by
  cases h <;> exact ⟨rfl, rfl, Option.map_eq_bind.symm⟩

namespace Node

/-- A pass does the same whatever positions and array names are called: results, rejections, faults
and notes differ in these labels only. Trees that differ in positions only are not told apart. -/
theorem optimize_ignores_labels :
    (∀ (t : Node) (f : Position → Position) (g : String → String),
      (t.relabel (.total f g)).optimize.notes.map Note.diagnostic =
        t.optimize.notes.map (fun note =>
          { note.diagnostic with position := note.position.map f }) ∧
      match t.optimize.outcome, (t.relabel (.total f g)).optimize.outcome with
      | .ok r, .ok r' => r' = r.map (relabel (.total f g))
      | .error (.rejected e), .error (.rejected e') =>
          e'.cause = e.cause.rename g ∧ e'.issuer = e.issuer ∧ e'.position = e.position.map f
      | .error (.fault fault), .error (.fault fault') => fault'.message = fault.message
      | _, _ => False) ∧
    ∀ t t' : Node, t.erased = t'.erased → t.optimize.erased = t'.optimize.erased := by
  constructor
  · intro t f g
    have mirrors := mirrors_optimize (.total f g) t
    constructor
    · rw [mirrors.notes_eq, List.map_map]
      apply List.map_congr_left
      intro note _
      simp only [Function.comp, Note.diagnostic, Note.relabel]
      rw [Option.map_eq_bind]
      rfl
    · revert mirrors
      generalize t.optimize = x
      generalize (t.relabel (.total f g)).optimize = y
      intro mirrors
      cases mirrors with
      | ok => rfl
      | error same =>
        cases same with
        | rejected he => exact he.total_eq
        | fault => rfl
  · intro t t' same
    have left := (mirrors_optimize .forget t).erased_eq
    have right := (mirrors_optimize .forget t').erased_eq
    have runs : (t.relabel .forget).optimize = (t'.relabel .forget).optimize :=
      congrArg optimize same
    rw [← left, ← right, runs]

def overrunning (p : Option Position) : Node :=
  assign (cell .write 0 p) (element .read ⟨0, 3, "row"⟩ (immediate 7 p) p) none

theorem overrunning_ignores_labels :
    (overrunning (some ⟨4, 2⟩)).erased = (overrunning (some ⟨9, 1⟩)).erased ∧
      (overrunning (some ⟨4, 2⟩)).optimize.erased =
        (overrunning (some ⟨9, 1⟩)).optimize.erased :=
  ⟨rfl, optimize_ignores_labels.2 _ _ rfl⟩

end Node

end EventScript
