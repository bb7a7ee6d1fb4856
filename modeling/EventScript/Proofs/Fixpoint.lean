import EventScript.Proofs.Emittable
import EventScript.Proofs.Minimal

/-! One pass reaches a fixed point. A second pass over a result finds nothing to do, because the
result is minimal; only a fused construct stops it, because the optimizer does not accept its
own. -/
namespace EventScript
open Node

theorem Parts.of_unchanged {row : List (Option Role × Node)}
    (h : ∀ part ∈ row, Reduction (some part.2) [] (some part.2)) :
    Parts row [] (row.map fun part => some part.2) := by
  induction row with
  | nil => exact .nil
  | cons part rest ih =>
    obtain ⟨first, others⟩ := List.forall_mem_cons.mp h
    exact .cons first (fun _ => rfl) (ih others)

namespace Node

theorem withoutDead_some {ss : List Node} (full : ∀ s ∈ ss, s.isEmptyBlock = false) :
    withoutDead (ss.map some) = ss := by
  induction ss with
  | nil => rfl
  | cons s rest ih =>
    obtain ⟨first, others⟩ := List.forall_mem_cons.mp full
    have rest_eq := ih others
    simp_all [withoutDead]

theorem Minimal.unchanged {n : Node} (minimal : n.Minimal) (made : n.kind.isUnfolded = false)
    (plain : n.isFolded = false)
    (parts : ∀ part ∈ n.parts, Reduction (some part.2) [] (some part.2)) :
    Reduction (some n) [] (some n) := by
  cases n with
  | block ss p =>
    have row := reduction_block (Parts.of_unchanged parts) p
    rw [List.map_map] at row
    simpa only [Function.comp_def, withoutDead_some minimal] using row
  | assign target value p =>
    exact .assign (parts _ List.mem_cons_self) (parts _ (.tail _ List.mem_cons_self))
  | ifWhen | whileLoop => cases made
  | foldedIf | foldedWhile => cases plain
  | binary op l r p =>
    refine .binaryKept (parts _ List.mem_cons_self) (parts _ (.tail _ List.mem_cons_self))
      minimal.1 fun b hb => ?_
    exact BinaryOp.reduceStrength_eq_none_iff.mpr fun hop => minimal.2 hop b hb
  | unary op n p => exact .unaryKept (parts _ List.mem_cons_self) minimal
  | element access array i p => exact .elementKept (parts _ List.mem_cons_self) minimal
  | declare => exact .declare
  | invoke => exact .invoke
  | immediate => exact .immediate
  | cell => exact .cell

/-- A second pass over this node changes nothing, unless a fused construct stops it. -/
def Settled (n : Node) : Prop :=
  (n.outer.find? isFolded = none → Reduction (some n) [] (some n)) ∧
    ∀ x, n.outer.find? isFolded = some x → Halt n [] (.fault (.alreadyFolded x.kind))

theorem settled_of_isFolded {n : Node} (h : n.isFolded = true) : n.Settled := by
  have found : n.outer.find? isFolded = some n := by
    rw [outer_eq, List.find?_cons_of_pos h]
  constructor
  · intro none_found
    cases found.symm.trans none_found
  · intro x hx
    cases found.symm.trans hx
    refine .refused ?_ (.folded h)
    cases n with
    | foldedIf | foldedWhile => exact .nil
    | _ => cases h

theorem settled {n : Node} (minimal : ∀ x ∈ n.outer, x.Minimal)
    (made : ∀ x ∈ n.outer, x.kind.isUnfolded = false) : n.Settled := by
  induction n using children_induction with
  | step n ih =>
    cases plain : n.isFolded with
    | true => exact settled_of_isFolded plain
    | false =>
      have outer_parts : n.outer = n :: n.parts.flatMap fun part => part.2.outer := by
        rw [outer_eq, flatMap_parts plain]
      have below : ∀ part ∈ n.parts, part.2.Settled := by
        intro part hpart
        have inside : ∀ x ∈ part.2.outer, x ∈ n.outer := fun x hx =>
          outer_parts ▸ .tail _ (List.mem_flatMap.mpr ⟨part, hpart, hx⟩)
        exact ih part.2 (mem_children_of_parts hpart) (fun x hx => minimal x (inside x hx))
          fun x hx => made x (inside x hx)
      have own : n ∈ n.outer := mem_outer.mpr (.inl rfl)
      rw [Settled, outer_parts, List.find?_cons_of_neg (by simp [plain]), List.find?_flatMap]
      constructor
      · intro none_found
        refine (minimal n own).unchanged (made n own) plain fun part hpart => ?_
        exact (below part hpart).1 (List.findSome?_eq_none_iff.mp none_found part hpart)
      · intro x found
        obtain ⟨before, part, after, split, hx, earlier⟩ := List.findSome?_eq_some_iff.mp found
        have unchanged : ∀ part ∈ before, Reduction (some part.2) [] (some part.2) :=
          fun part hpart => (below part (by simp [split, hpart])).1 (earlier part hpart)
        exact .part split (.of_unchanged unchanged) ((below part (by simp [split])).2 x hx)

/-- A second pass over a result gives it back as it is and sends no note, unless there is a fused
construct outside the arguments of calls; then it stops at one, again without a note. -/
theorem optimize_again {t r : Node} (hr : t.optimize.outcome = .ok (some r)) :
    ((∀ path n, r.at? path = some n → n.isFolded = true → r.InArguments path) →
      r.optimize = ⟨[], .ok (some r)⟩) ∧
    ((∃ path n, r.at? path = some n ∧ n.isFolded = true ∧ ¬ r.InArguments path) →
      ∃ path n fault, r.at? path = some n ∧ n.isFolded = true ∧ ¬ r.InArguments path ∧
        r.optimize = ⟨[], .error (.fault fault)⟩ ∧
        fault.message =
          n.kind.name ++ " is produced by the optimizer and cannot be optimized again") := by
  have reduction := reduction_of_outcome hr
  obtain ⟨unchanged, stopped⟩ :=
    settled reduction.allMinimal fun x hx => (reduction.accounted x hx).1
  constructor
  · intro hplain
    have hnone : r.outer.find? isFolded = none := by
      rw [List.find?_eq_none]
      intro n hn
      rw [Bool.not_eq_true]
      exact forall_outer_iff_path.mpr hplain n hn
    exact (unchanged hnone).optimize_eq
  · rintro ⟨path, n, hn, hfolded, hout⟩
    cases hfound : r.outer.find? isFolded with
    | none =>
      have := List.find?_eq_none.mp hfound n (mem_outer_iff.mpr ⟨path, hn, hout⟩)
      exact absurd hfolded this
    | some first =>
      obtain ⟨path', hfirst, hout'⟩ := mem_outer_iff.mp (List.mem_of_find?_eq_some hfound)
      exact ⟨path', first, .alreadyFolded first.kind, hfirst, List.find?_some hfound, hout',
        (stopped first hfound).optimize_eq, rfl⟩

def scaling : Node :=
  assign (cell .write 0 none) (binary .mul (cell .read 0 none) (immediate 8 none) none) none

def scaled : Node :=
  assign (cell .write 0 none) (binary .shiftLeft (cell .read 0 none) (immediate 3 none) none) none

def growing : Node :=
  whileLoop (binary .lt (cell .read 0 none) (immediate 9 none) none) scaling none

def grown : Node :=
  foldedWhile .lt (cell .read 0 none) (immediate 9 none) scaled none

theorem scaling_again :
    scaled.optimize = ⟨[], .ok (some scaled)⟩ ∧
      ∃ fault, grown.optimize = ⟨[], .error (.fault fault)⟩ := by
  constructor
  · refine (optimize_again (t := scaling) (r := scaled) rfl).1 ?_
    exact forall_outer_iff_path.mp (by decide)
  · obtain ⟨_, _, fault, _, _, _, hstop, _⟩ :=
      (optimize_again (t := growing) (r := grown) rfl).2
        ⟨[], grown, rfl, rfl, not_inArguments_nil _⟩
    exact ⟨fault, hstop⟩

end Node

end EventScript
