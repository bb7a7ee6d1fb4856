import EventScript.Proofs.Postorder

/-! Which scripts are rejected, and for which of their nodes: for the first one, in the order in
which nodes are finished, with which something is wrong. A script that is accepted has no such
node, not even in code that is removed. -/
namespace EventScript
open Node

namespace Node

/-- A script is rejected for the first node in post-order with which something is wrong, and the
rejection tells what, where, and by which rule; nothing is wrong with any node of a script that is
accepted, not even with one that is removed. -/
theorem optimize_rejects_first (t : Node) :
    (∀ e, t.optimize.outcome = .error (.rejected e) →
      ∃ before n after, t.postorder = before ++ n :: after ∧ n.Explains e ∧
        ∀ m ∈ before, m.offence = none) ∧
    ∀ r, t.optimize.outcome = .ok r →
      ∀ path n, t.at? path = some n → ¬ t.InArguments path → n.offence = none := by
  constructor
  · intro e he
    obtain ⟨before, n, after, split, explains, passes⟩ := (halt_of_outcome he).first_offence
    exact ⟨before, n, after, split, explains, passes.1⟩
  · intro r hr path n hn hout
    exact (reduction_of_outcome hr).passes.1 n
      (mem_postorder.mpr (mem_outer_iff.mpr ⟨path, hn, hout⟩))

def stumbling : Node :=
  block
    [whileLoop (immediate 1 none)
      (assign (cell .write 0 none)
        (binary .div (immediate 1 none)
          (binary .sub (immediate 2 none) (immediate 2 none) none) (some ⟨3, 5⟩)) none)
      (some ⟨2, 1⟩)] none

def skipping : Node :=
  ifWhen (immediate 0 none)
    (assign (cell .write 0 none) (element .read ⟨0, 3, "row"⟩ (immediate 2 none) none) none)
    none ⟨false, none⟩ none

theorem stumbling_rejects_first :
    (∃ before n after, stumbling.postorder = before ++ n :: after ∧
      n.Explains (.divisionByZero "pulsec.opt.binary" (some ⟨3, 5⟩)) ∧
      ∀ m ∈ before, m.offence = none) ∧
    (element .read ⟨0, 3, "row"⟩ (immediate 2 none) none).offence = none := by
  constructor
  · exact (optimize_rejects_first stumbling).1 _ rfl
  · have removed : skipping.optimize.outcome = .ok none := rfl
    have reached : ¬ skipping.InArguments [1, 1] :=
      not_inArguments_cons rfl rfl (not_inArguments_cons rfl rfl (not_inArguments_nil _))
    exact (optimize_rejects_first skipping).2 none removed [1, 1] _ rfl reached

end Node

end EventScript
