import EventScript.Proofs.Occurrence
import EventScript.Proofs.Halt
import Mathlib.Data.List.Lex
import Mathlib.Data.Set.Monotone

/-! Every node of a result has an origin in the tree that was optimized, at the same position of the
script; the only exceptions are the empty blocks that the optimizer puts in. The origins stand in
the order of the nodes: paths are compared as words are in a dictionary, which is pre-order. -/
namespace EventScript
open Node

namespace Node

def isFilled : Node → Bool
  | foldedIf _ _ _ (block [] none) _ _ _ => true
  | _ => false

/-- The path leads to such a branch, which the optimizer may have put in. -/
def Filler (n : Node) (path : List Nat) : Prop :=
  ∃ before filled, path = before ++ [2] ∧ n.at? before = some filled ∧ filled.isFilled = true

/-- What the optimizer may make of a node, the arguments of calls apart. -/
inductive ComesFrom : Node → Node → Prop where
  | block : ComesFrom (block ss p) (block ss' p')
  | assign : ComesFrom (assign target value p) (assign target' value' p')
  | fusedIf : ComesFrom (foldedIf op l r t e form p) (ifWhen c t' e' form p')
  | fusedWhile : ComesFrom (foldedWhile op l r b p) (whileLoop c b' p')
  | declare : ComesFrom (declare entity p) (declare entity p')
  | invoke : ComesFrom (invoke callee args p) (invoke callee args p')
  | binary : ComesFrom (binary op l r p) (binary op' l' r' p')
  | unary : ComesFrom (unary op n p) (unary op n' p')
  | immediate : ComesFrom (immediate v p) (immediate v' p')
  | binaryFolded : ComesFrom (immediate v p) (binary op l r p')
  | unaryFolded : ComesFrom (immediate v p) (unary op n p')
  | cell : ComesFrom (cell access address p) (cell access address p')
  | elementResolved : ComesFrom (cell access address p) (element access array i p')
  | element : ComesFrom (element access array i p) (element access array i' p')

/-! ### Rows of trees -/

/-- The first trees remain of the second ones: each of their nodes comes from a node, in the same
order. Between the nodes that are left, others may be gone. -/
inductive Remains : List Node → List Node → Prop where
  | nil : Remains [] ts
  | append : Remains rs₁ ts₁ → Remains rs₂ ts₂ → Remains (rs₁ ++ rs₂) (ts₁ ++ ts₂)
  | dive : Remains rs m.children → Remains rs [m]
  | node : n.position = m.position → n.ComesFrom m → n.isCall = false → n.isFilled = false →
      Remains n.children m.children → Remains [n] [m]
  | filled : ComesFrom (foldedIf op l r (block [] none) e form p) m → p = m.position →
      Remains (l :: r :: e.toList) m.children →
      Remains [foldedIf op l r (block [] none) e form p] [m]
  | call : Remains [invoke callee args p] [invoke callee args p]

namespace Remains

theorem cons (first : Remains [r] [t]) (others : Remains rs ts) : Remains (r :: rs) (t :: ts) :=
  first.append others

theorem skip (h : Remains rs ts) : Remains rs (t :: ts) :=
  show Remains ([] ++ rs) ([t] ++ ts) from append nil h

theorem front (h : Remains rs [t]) : Remains rs (t :: ts) := by
  rw [← List.append_nil rs]
  exact append h nil

theorem leaf (position : n.position = m.position) (origin : n.ComesFrom m)
    (plain : n.isCall = false) (other : n.isFilled = false) (alone : n.children = []) :
    Remains [n] [m] :=
  node position origin plain other (alone ▸ nil)

theorem root (h : Remains [n] ts) (plain : n.isCall = false) (other : n.isFilled = false) :
    ∃ m, n.position = m.position ∧ n.ComesFrom m ∧ Remains n.children m.children ∧
      ∀ rs, Remains rs [m] → Remains rs ts := by
  generalize hn : [n] = rs at h
  induction h with
  | nil => cases hn
  | @append rs₁ ts₁ rs₂ ts₂ _ _ ih₁ ih₂ =>
    rcases List.append_eq_singleton_iff.mp hn.symm with ⟨rfl, rfl⟩ | ⟨rfl, rfl⟩
    · obtain ⟨m, position, origin, parts, back⟩ := ih₂ rfl
      refine ⟨m, position, origin, parts, fun rs hrs => ?_⟩
      rw [← List.nil_append rs]
      exact append nil (back rs hrs)
    · obtain ⟨m, position, origin, parts, back⟩ := ih₁ rfl
      refine ⟨m, position, origin, parts, fun rs hrs => ?_⟩
      rw [← List.append_nil rs]
      exact append (back rs hrs) nil
  | dive _ ih =>
    obtain ⟨m, position, origin, parts, back⟩ := ih hn
    exact ⟨m, position, origin, parts, fun rs hrs => dive (back rs hrs)⟩
  | @node n' m position origin _ _ parts _ =>
    cases hn
    exact ⟨m, position, origin, parts, fun _ => id⟩
  | filled =>
    cases hn
    cases other
  | call =>
    cases hn
    cases plain

theorem revalue (h : Remains [immediate v p] ts) : Remains [immediate w p] ts := by
  obtain ⟨m, position, origin, -, back⟩ := h.root rfl rfl
  apply back
  cases origin with
  | immediate => exact leaf position .immediate rfl rfl rfl
  | binaryFolded => exact leaf position .binaryFolded rfl rfl rfl
  | unaryFolded => exact leaf position .unaryFolded rfl rfl rfl

theorem parts (h : Remains [n] ts) (plain : n.isCall = false) (other : n.isFilled = false) :
    Remains n.children ts := by
  obtain ⟨m, -, -, parts, back⟩ := h.root plain other
  exact back _ (dive parts)

end Remains

/-! ### Origins -/

/-- The node at a path into a row of trees: the first step chooses the tree. -/
def atRow? (ns : List Node) : List Nat → Option Node
  | [] => none
  | i :: path => ns[i]?.bind fun n => n.at? path

/-- A node of the row that no filler is. -/
def Stands (ns : List Node) (x : Node) : List Nat → Prop
  | [] => False
  | i :: path => ∃ n, ns[i]? = some n ∧ n.at? path = some x ∧ ¬ n.Filler path

def RowArguments (ns : List Node) : List Nat → Prop
  | [] => False
  | i :: path => ∃ n, ns[i]? = some n ∧ n.InArguments path

/-- The nodes of the first row come from those of the second one, in order. -/
structure Origins (origin : List Nat → List Nat) (rs ts : List Node) : Prop where
  increasing : Stands rs x path → Stands rs y path' → path < path' → origin path < origin path'
  known : Stands rs x path → ∃ m, atRow? ts (origin path) = some m ∧ x.position = m.position ∧
    (RowArguments rs path → x = m) ∧ (¬ RowArguments rs path → x.ComesFrom m)

def behind (count : Nat) : List Nat → List Nat
  | [] => []
  | i :: path => (count + i) :: path

def beside (count : Nat) (left right : List Nat → List Nat) : List Nat → List Nat
  | [] => []
  | i :: path => if i < count then left (i :: path) else right ((i - count) :: path)

def underRoot (origin : List Nat → List Nat) : List Nat → List Nat
  | [] => []
  | [i] => [i]
  | i :: j :: path => i :: origin (j :: path)

theorem behind_lt (count : Nat) {path path' : List Nat} (h : path < path') :
    behind count path < behind count path' := by
  cases path' with
  | nil => exact absurd h (List.not_lt_nil _)
  | cons j path' =>
    cases path with
    | nil => exact List.nil_lt_cons _ _
    | cons i path =>
      rw [behind, behind, List.cons_lt_cons_iff, Nat.add_lt_add_iff_left, Nat.add_left_cancel_iff]
      exact List.cons_lt_cons_iff.mp h

theorem atRow?_eq_some {ns : List Node} (h : atRow? ns path = some m) :
    ∃ i rest, path = i :: rest ∧ i < ns.length := by
  cases path with
  | nil => cases h
  | cons i rest =>
    obtain ⟨n, hn, -⟩ := Option.bind_eq_some_iff.mp h
    exact ⟨i, rest, rfl, (List.getElem?_eq_some_iff.mp hn).1⟩

theorem atRow?_behind (ms ns : List Node) (h : atRow? ns path = some m) :
    atRow? (ms ++ ns) (behind ms.length path) = some m := by
  obtain ⟨i, rest, rfl, -⟩ := atRow?_eq_some h
  rw [behind, atRow?, List.getElem?_append_right (Nat.le_add_right _ _), Nat.add_sub_cancel_left]
  exact h

theorem atRow?_before (ms ns : List Node) (h : atRow? ms path = some m) :
    atRow? (ms ++ ns) path = some m := by
  obtain ⟨i, rest, rfl, small⟩ := atRow?_eq_some h
  rw [atRow?, List.getElem?_append_left small]
  exact h

theorem stands_left {rs : List Node} (small : i < rs.length) (rs' : List Node) :
    Stands (rs ++ rs') x (i :: path) ↔ Stands rs x (i :: path) := by
  rw [Stands, Stands, List.getElem?_append_left small]

theorem stands_right {rs : List Node} (large : rs.length ≤ i) (rs' : List Node) :
    Stands (rs ++ rs') x (i :: path) ↔ Stands rs' x ((i - rs.length) :: path) := by
  rw [Stands, Stands, List.getElem?_append_right large]

theorem rowArguments_left {rs : List Node} (small : i < rs.length) (rs' : List Node) :
    RowArguments (rs ++ rs') (i :: path) ↔ RowArguments rs (i :: path) := by
  rw [RowArguments, RowArguments, List.getElem?_append_left small]

theorem rowArguments_right {rs : List Node} (large : rs.length ≤ i) (rs' : List Node) :
    RowArguments (rs ++ rs') (i :: path) ↔ RowArguments rs' ((i - rs.length) :: path) := by
  rw [RowArguments, RowArguments, List.getElem?_append_right large]

theorem Stands.cons (h : Stands ns x path) : ∃ i rest, path = i :: rest := by
  cases path with
  | nil => cases h
  | cons i rest => exact ⟨i, rest, rfl⟩

theorem Stands.single (h : Stands [n] x (i :: path)) : i = 0 := by
  obtain ⟨_, hn, -⟩ := h
  have := (List.getElem?_eq_some_iff.mp hn).1
  rw [List.length_singleton] at this
  omega

namespace Origins

theorem append (h : Origins o rs ts) (h' : Origins o' rs' ts') :
    Origins (beside rs.length o (behind ts.length ∘ o')) (rs ++ rs') (ts ++ ts') where
  increasing {x path y path'} hx hy lt := by
    obtain ⟨i, rest, rfl⟩ := hx.cons
    obtain ⟨j, rest', rfl⟩ := hy.cons
    have order := List.cons_lt_cons_iff.mp lt
    rw [beside, beside]
    by_cases hi : i < rs.length
    · rw [if_pos hi]
      rw [stands_left hi] at hx
      by_cases hj : j < rs.length
      · rw [if_pos hj]
        exact h.increasing hx ((stands_left hj _).mp hy) lt
      · rw [if_neg hj]
        rw [stands_right (Nat.le_of_not_lt hj)] at hy
        obtain ⟨m, hm, -⟩ := h.known hx
        obtain ⟨a, q, hq, small⟩ := atRow?_eq_some hm
        obtain ⟨m', hm', -⟩ := h'.known hy
        obtain ⟨b, q', hq', -⟩ := atRow?_eq_some hm'
        rw [hq, Function.comp_apply, hq', behind, List.cons_lt_cons_iff]
        omega
    · have hj : ¬ j < rs.length := by omega
      rw [if_neg hi, if_neg hj]
      rw [stands_right (Nat.le_of_not_lt hi)] at hx
      rw [stands_right (Nat.le_of_not_lt hj)] at hy
      refine behind_lt _ (h'.increasing hx hy (List.cons_lt_cons_iff.mpr ?_))
      exact order.imp (fun less => by omega) fun ⟨same, less⟩ => ⟨by rw [same], less⟩
  known {x path} hx := by
    obtain ⟨i, rest, rfl⟩ := hx.cons
    rw [beside]
    by_cases hi : i < rs.length
    · rw [stands_left hi] at hx
      obtain ⟨m, hm, position, origin⟩ := h.known hx
      rw [if_pos hi, rowArguments_left hi]
      exact ⟨m, atRow?_before ts ts' hm, position, origin⟩
    · have large := Nat.le_of_not_lt hi
      rw [stands_right large] at hx
      obtain ⟨m, hm, position, origin⟩ := h'.known hx
      rw [if_neg hi, rowArguments_right large]
      exact ⟨m, atRow?_behind ts ts' hm, position, origin⟩

theorem dive (h : Origins o rs m.children) : Origins (fun path => 0 :: o path) rs [m] where
  increasing hx hy lt := List.cons_lt_cons_iff.mpr (.inr ⟨rfl, h.increasing hx hy lt⟩)
  known hx := by
    obtain ⟨x', hx', origin⟩ := h.known hx
    obtain ⟨i, rest, hi, -⟩ := atRow?_eq_some hx'
    refine ⟨x', ?_, origin⟩
    rw [hi] at hx' ⊢
    exact hx'

/-- One tree comes from another if its root does, and the rest of it from below the other root;
the parts are found in a row by another path. -/
theorem under {row : List Node} {find : List Nat → List Nat} (h : Origins o row m.children)
    (position : n.position = m.position) (origin : n.ComesFrom m)
    (stands : ∀ i path x, Stands [n] x (0 :: i :: path) → Stands row x (find (i :: path)))
    (arguments : ∀ i path x, Stands [n] x (0 :: i :: path) →
      (RowArguments [n] (0 :: i :: path) ↔ RowArguments row (find (i :: path))))
    (order : ∀ i path x j path' y, Stands [n] x (0 :: i :: path) → Stands [n] y (0 :: j :: path') →
      i :: path < j :: path' → find (i :: path) < find (j :: path')) :
    Origins (underRoot (o ∘ find)) [n] [m] where
  increasing {x path y path'} hx hy lt := by
    obtain ⟨i, rest, rfl⟩ := hx.cons
    obtain ⟨j, rest', rfl⟩ := hy.cons
    obtain rfl := hx.single
    obtain rfl := hy.single
    have less : rest < rest' := by simpa using lt
    cases rest' with
    | nil => exact absurd less (List.not_lt_nil _)
    | cons j rest' =>
      obtain ⟨m', hm', -⟩ := h.known (stands _ _ _ hy)
      obtain ⟨a, q, hq, -⟩ := atRow?_eq_some hm'
      cases rest with
      | nil =>
        rw [underRoot, underRoot, Function.comp_apply, hq]
        exact List.cons_lt_cons_iff.mpr (.inr ⟨rfl, List.nil_lt_cons _ _⟩)
      | cons i rest =>
        refine List.cons_lt_cons_iff.mpr (.inr ⟨rfl, ?_⟩)
        exact h.increasing (stands _ _ _ hx) (stands _ _ _ hy) (order _ _ _ _ _ _ hx hy less)
  known {x path} hx := by
    obtain ⟨i, rest, rfl⟩ := hx.cons
    obtain rfl := hx.single
    cases rest with
    | nil =>
      obtain ⟨_, ⟨⟩, ⟨⟩, -⟩ := hx
      refine ⟨m, rfl, position, ?_, fun _ => origin⟩
      rintro ⟨_, ⟨⟩, inside⟩
      exact absurd inside (not_inArguments_nil _)
    | cons i rest =>
      obtain ⟨m', hm', position', origin'⟩ := h.known (stands _ _ _ hx)
      obtain ⟨a, q, hq, -⟩ := atRow?_eq_some hm'
      rw [arguments _ _ _ hx, underRoot, Function.comp_apply]
      refine ⟨m', ?_, position', origin'⟩
      rw [hq] at hm' ⊢
      exact hm'

end Origins

theorem Filler.cons {n : Node} (hc : n.children[i]? = some c) (h : c.Filler path) :
    n.Filler (i :: path) := by
  obtain ⟨before, filled, rfl, hat, hfilled⟩ := h
  exact ⟨i :: before, filled, rfl, at?_cons.mpr ⟨c, hc, hat⟩, hfilled⟩

theorem Stands.part (h : Stands [n] x (0 :: i :: path)) :
    ∃ c, n.children[i]? = some c ∧ c.at? path = some x ∧ ¬ c.Filler path := by
  obtain ⟨_, ⟨⟩, hat, other⟩ := h
  obtain ⟨c, hc, hx⟩ := at?_cons.mp hat
  exact ⟨c, hc, hx, fun filler => other (filler.cons hc)⟩

theorem rowArguments_part {n : Node} (plain : n.isCall = false) (hc : n.children[i]? = some c)
    (hrow : row[j]? = some c) :
    RowArguments [n] (0 :: i :: path) ↔ RowArguments row (j :: path) := by
  rw [RowArguments, RowArguments]
  simp [hrow, inArguments_cons hc, plain]

def aroundFirst : List Nat → List Nat
  | [] => []
  | i :: path => (if i < 2 then i else i - 1) :: path

theorem aroundFirst_part (hc : (foldedIf op l r t e form p).children[i]? = some c) (hi : i ≠ 2) :
    (l :: r :: e.toList)[if i < 2 then i else i - 1]? = some c := by
  rcases i with _ | _ | _ | i
  · exact hc
  · exact hc
  · exact absurd rfl hi
  · exact hc

theorem Stands.not_filler
    (h : Stands [foldedIf op l r (block [] none) e form p] x (0 :: i :: path)) : i ≠ 2 := by
  rintro rfl
  obtain ⟨c, ⟨⟩, hat, -⟩ := h.part
  obtain ⟨_, ⟨⟩, -, other⟩ := h
  cases path with
  | nil => exact other ⟨[], _, rfl, rfl, rfl⟩
  | cons j path =>
    obtain ⟨_, hj, -⟩ := at?_cons.mp hat
    cases hj

theorem Remains.origins (h : Remains rs ts) : ∃ origin, Origins origin rs ts := by
  induction h with
  | nil =>
    refine ⟨id, ⟨fun hx => ?_, fun hx => ?_⟩⟩
    all_goals
      obtain ⟨i, rest, rfl⟩ := hx.cons
      obtain ⟨_, ⟨⟩, -⟩ := hx
  | append _ _ ih₁ ih₂ =>
    obtain ⟨o₁, h₁⟩ := ih₁
    obtain ⟨o₂, h₂⟩ := ih₂
    exact ⟨_, h₁.append h₂⟩
  | dive _ ih =>
    obtain ⟨o, h⟩ := ih
    exact ⟨_, h.dive⟩
  | node position origin plain _ _ ih =>
    obtain ⟨o, h⟩ := ih
    refine ⟨underRoot (o ∘ id), h.under position origin ?_ ?_ ?_⟩
    · exact fun i path x hx => hx.part
    · intro i path x hx
      obtain ⟨c, hc, -⟩ := hx.part
      exact rowArguments_part plain hc hc
    · exact fun _ _ _ _ _ _ _ _ less => less
  | filled origin position _ ih =>
    obtain ⟨o, h⟩ := ih
    refine ⟨underRoot (o ∘ aroundFirst), h.under position origin ?_ ?_ ?_⟩
    · intro i path x hx
      obtain ⟨c, hc, hat⟩ := hx.part
      exact ⟨c, aroundFirst_part hc hx.not_filler, hat⟩
    · intro i path x hx
      obtain ⟨c, hc, -⟩ := hx.part
      exact rowArguments_part rfl hc (aroundFirst_part hc hx.not_filler)
    · intro i path x j path' y hx hy less
      have hi := hx.not_filler
      have hj := hy.not_filler
      refine List.cons_lt_cons_iff.mpr ((List.cons_lt_cons_iff.mp less).imp ?_ ?_)
      · intro less
        split <;> split <;> omega
      · exact fun ⟨same, less⟩ => ⟨by rw [same], less⟩
  | call =>
    refine ⟨id, ⟨fun _ _ => id, fun hx => ?_⟩⟩
    obtain ⟨i, rest, rfl⟩ := hx.cons
    obtain rfl := hx.single
    obtain ⟨_, ⟨⟩, hat, -⟩ := hx
    refine ⟨_, hat, rfl, fun _ => rfl, fun outside => ?_⟩
    cases rest with
    | nil =>
      cases hat
      exact .invoke
    | cons i rest =>
      obtain ⟨c, hc, -⟩ := at?_cons.mp hat
      exact absurd ⟨_, rfl, (inArguments_cons hc).mpr (.inl rfl)⟩ outside

end Node

/-! ### Results remain -/

namespace Reduction

/-- What is left of a slot remains of it; for a block, this holds of its statements. -/
structure Left (s r : Option Node) : Prop where
  remains : Remains r.toList s.toList
  statements : ∀ ss p, s = some (block ss p) → ∃ kept, r = some (block kept p) ∧ Remains kept ss

theorem Left.other (remains : Remains r.toList s.toList)
    (different : ∀ ss p, s ≠ some (block ss p) := by simp) : Left s r where
  remains := remains
  statements ss p same := absurd same (different ss p)

theorem Left.ofStatements (h : Remains kept ss) :
    Left (some (block ss p)) (some (block kept p)) where
  remains := .node rfl .block rfl rfl h
  statements := by
    rintro _ _ ⟨⟩
    exact ⟨kept, rfl, h⟩

theorem Left.fusedIf {t' e e' : Option Node} (hc : Remains [binary op l r q] [c])
    (ht : Remains t'.toList [t]) (he : Remains e'.toList e.toList) :
    Left (some (ifWhen c t e form p))
      (some (foldedIf op l r (t'.getD (block [] none)) e' form p)) := by
  have operands : Remains [l, r] [c] := hc.parts rfl rfl
  cases t' with
  | none => exact .other (.filled .fusedIf rfl (operands.append he.skip))
  | some n =>
    cases filled : (foldedIf op l r n e' form p).isFilled with
    | true =>
      unfold isFilled at filled
      split at filled
      · rename_i same
        cases same
        exact .other (.filled .fusedIf rfl (operands.append he.skip))
      · cases filled
    | false => exact .other (.node rfl .fusedIf rfl filled (operands.append (ht.append he)))

theorem left (h : Reduction s ns r) : Left s r := by
  induction h with
  | skip => exact .other .nil
  | blockNil => exact .ofStatements .nil
  | blockDrop _ _ _ _ ihrest =>
    obtain ⟨kept, ⟨⟩, others⟩ := ihrest.statements _ _ rfl
    exact .ofStatements others.skip
  | blockKeep _ _ _ ihs ihrest =>
    obtain ⟨kept, ⟨⟩, others⟩ := ihrest.statements _ _ rfl
    exact .ofStatements (ihs.remains.cons others)
  | assign _ _ iht ihv => exact .other (.node rfl .assign rfl rfl (iht.remains.cons ihv.remains))
  | ifEmpty | whileAlwaysFalse | whileEmpty => exact .other .nil
  | ifAlwaysTrue _ _ _ _ _ _ iht _ => exact .other (.dive iht.remains.front.skip)
  | ifAlwaysFalse _ _ _ _ _ _ ihe => exact .other (.dive ihe.remains.skip.skip)
  | ifFused _ _ _ _ _ ihc iht ihe => exact .fusedIf ihc.remains iht.remains ihe.remains
  | whileFused _ _ _ _ ihc ihb =>
    exact .other (.node rfl .fusedWhile rfl rfl ((ihc.remains.parts rfl rfl).append ihb.remains))
  | declare => exact .other (.leaf rfl .declare rfl rfl rfl)
  | invoke => exact .other .call
  | binaryFolded => exact .other (.leaf rfl .binaryFolded rfl rfl rfl)
  | binaryShifted _ _ _ _ ihl ihr =>
    exact .other (.node rfl .binary rfl rfl (ihl.remains.cons ihr.remains.revalue))
  | binaryKept _ _ _ _ ihl ihr =>
    exact .other (.node rfl .binary rfl rfl (ihl.remains.cons ihr.remains))
  | unaryFolded => exact .other (.leaf rfl .unaryFolded rfl rfl rfl)
  | unaryKept _ _ ih => exact .other (.node rfl .unary rfl rfl ih.remains)
  | immediate => exact .other (.leaf rfl .immediate rfl rfl rfl)
  | cell => exact .other (.leaf rfl .cell rfl rfl rfl)
  | elementResolved => exact .other (.leaf rfl .elementResolved rfl rfl rfl)
  | elementKept _ _ ih => exact .other (.node rfl .element rfl rfl ih.remains)

end Reduction

namespace Node

/-- The paths to the nodes of a tree that the optimizer cannot have put in. -/
def places (n : Node) : Set (List Nat) :=
  {path | (∃ x, n.at? path = some x) ∧ ¬ n.Filler path}

/-- Every node of a result comes from a node of the tree at the same position, in the order of the
tree; what is in the arguments of a call is the same node as before. -/
theorem optimize_keeps_origins {t r : Node} (h : t.optimize.outcome = .ok (some r)) :
    ∃ origin : List Nat → List Nat,
      Set.InjOn origin r.places ∧ StrictMonoOn origin r.places ∧
      ∀ path ∈ r.places, ∀ x, r.at? path = some x →
        ∃ m, t.at? (origin path) = some m ∧ m.position = x.position ∧
          (r.InArguments path → m = x) ∧ (¬ r.InArguments path → x.ComesFrom m) := by
  obtain ⟨o, origins⟩ := (reduction_of_outcome h).left.remains.origins
  have stands {path x} (hx : r.at? path = some x) (other : ¬ r.Filler path) :
      Stands [r] x (0 :: path) := ⟨r, rfl, hx, other⟩
  have single {path x} (hx : r.at? path = some x) (other : ¬ r.Filler path) :
      o (0 :: path) = 0 :: (o (0 :: path)).tail := by
    obtain ⟨m, hm, -⟩ := origins.known (stands hx other)
    obtain ⟨i, rest, hi, small⟩ := atRow?_eq_some hm
    rw [hi]
    simpa using small
  have increasing : StrictMonoOn (fun path => (o (0 :: path)).tail) r.places := by
    rintro path ⟨⟨x, hx⟩, other⟩ path' ⟨⟨y, hy⟩, other'⟩ less
    have lifted := origins.increasing (stands hx other) (stands hy other')
      (List.cons_lt_cons_iff.mpr (.inr ⟨rfl, less⟩))
    rw [single hx other, single hy other'] at lifted
    simpa using lifted
  refine ⟨_, increasing.injOn, increasing, ?_⟩
  rintro path ⟨-, other⟩ x hx
  obtain ⟨m, hm, position, same, origin⟩ := origins.known (stands hx other)
  rw [single hx other] at hm
  refine ⟨m, hm, position.symm, fun inside => (same ⟨r, rfl, inside⟩).symm,
    fun outside => origin ?_⟩
  rintro ⟨_, ⟨⟩, inside⟩
  exact outside inside

def relocating : Node :=
  ifWhen
    (binary .lt (cell .read 3 (some ⟨1, 6⟩))
      (binary .add (immediate 2 (some ⟨1, 10⟩)) (immediate 5 (some ⟨1, 14⟩)) (some ⟨1, 12⟩))
      (some ⟨1, 8⟩))
    (ifWhen (immediate 0 none) (block [declare (.sub 4) none] none) none ⟨false, none⟩ none)
    (some (block
      [block [] none,
        assign (element .write ⟨10, 4, "xs"⟩ (immediate 2 (some ⟨3, 4⟩)) (some ⟨3, 1⟩))
          (cell .read 0 (some ⟨3, 8⟩)) (some ⟨3, 6⟩),
        invoke (.event 1) [binary .mul (immediate 3 none) (immediate 3 (some ⟨4, 6⟩)) none]
          (some ⟨4, 1⟩)] (some ⟨2, 1⟩)))
    ⟨true, some 5⟩ (some ⟨1, 1⟩)

def relocated : Node :=
  foldedIf .lt (cell .read 3 (some ⟨1, 6⟩)) (immediate 7 (some ⟨1, 12⟩)) (block [] none)
    (some (block
      [assign (cell .write 12 (some ⟨3, 1⟩)) (cell .read 0 (some ⟨3, 8⟩)) (some ⟨3, 6⟩),
        invoke (.event 1) [binary .mul (immediate 3 none) (immediate 3 (some ⟨4, 6⟩)) none]
          (some ⟨4, 1⟩)] (some ⟨2, 1⟩)))
    ⟨true, some 5⟩ (some ⟨1, 1⟩)

theorem relocating_keeps_origins :
    relocating.optimize.outcome = .ok (some relocated) ∧ [1] ∈ relocated.places ∧
      [2] ∉ relocated.places ∧
      ∃ origin : List Nat → List Nat, StrictMonoOn origin relocated.places ∧
        ∃ m, relocating.at? (origin [1]) = some m ∧ m.position = some ⟨1, 12⟩ ∧
          (¬ relocated.InArguments [1] → (immediate 7 (some ⟨1, 12⟩)).ComesFrom m) := by
  have constant : [1] ∈ relocated.places := by
    refine ⟨⟨_, rfl⟩, ?_⟩
    rintro ⟨before, filled, hp, -⟩
    have last := congrArg List.getLast? hp
    simp at last
  obtain ⟨origin, -, increasing, known⟩ := optimize_keeps_origins (t := relocating) rfl
  obtain ⟨m, hm, position, -, comes⟩ := known [1] constant _ rfl
  exact ⟨rfl, constant, fun put => put.2 ⟨[], _, rfl, rfl, rfl⟩, origin, increasing, m, hm,
    position, comes⟩

end Node

end EventScript
