import EventScript.Proofs.Postorder
import EventScript.Proofs.Session

/-! The notes of a run account for it node by node: for every node in post-order if the script is
accepted, and up to the first offending node if it is rejected. -/
namespace EventScript
open Node

namespace Node

def diagnostic? (n : Node) : Option Diagnostic := do
  let rule ← n.rule?
  let change ← n.remark?
  return { position := n.position, message := change.message, issuer := rule.issuer }

/-- Every conditional and every loop is announced, an operation on constants, a product or quotient
by a power of two, and an element at a constant index. -/
def Announced : Node → Prop
  | ifWhen .. | whileLoop .. => True
  | binary op left right _ =>
      left.constant?.isSome = true ∧ right.constant?.isSome = true ∨
        (op = .mul ∨ op = .div) ∧
          ∃ (b : Int16) (k : Nat), right.constant? = some b ∧ b.toInt = 2 ^ k
  | unary _ operand _ => operand.constant?.isSome = true
  | element _ _ index _ => index.constant?.isSome = true
  | _ => False

theorem rule?_of_remark? {n : Node} (h : n.remark? = some change) : n.rule? = some change.rule := by
  unfold remark? at h
  split at h
  · split at h
    · cases h; rfl
    · split at h
      · split at h <;> cases h <;> rfl
      · cases h
    · cases h
  · obtain ⟨a, -, rfl⟩ := Option.map_eq_some_iff.mp h
    rfl
  · obtain ⟨a, -, rfl⟩ := Option.map_eq_some_iff.mp h
    rfl
  · split at h
    · cases h; rfl
    · split at h
      · split at h <;> cases h <;> rfl
      · cases h; rfl
  · split at h
    · cases h; rfl
    · split at h <;> cases h <;> rfl
  · cases h

theorem diagnostic?_eq (n : Node) : n.diagnostic? = n.note?.map Note.diagnostic := by
  cases h : n.remark? with
  | none => cases hr : n.rule? <;> simp [diagnostic?, note?, h, hr]
  | some change => simp [diagnostic?, note?, h, rule?_of_remark? h, Note.diagnostic]

theorem diagnostic?_isSome_iff {n : Node} : n.diagnostic?.isSome = true ↔ n.Announced := by
  rw [diagnostic?_eq, note?, Option.isSome_map, Option.isSome_map]
  cases n with
  | binary op left right p =>
    simp only [remark?, Announced]
    cases left.constant? with
    | none =>
      cases right.constant? with
      | none => simp
      | some b =>
        cases power : isPowerOfTwo b <;> cases op <;> simp [← isPowerOfTwo_iff, power]
    | some a => cases right.constant? <;> simp
  | ifWhen c t e form p =>
    simp only [remark?, Announced, iff_true]
    split
    · rfl
    · split
      · split <;> rfl
      · rfl
  | whileLoop c b p =>
    simp only [remark?, Announced, iff_true]
    split
    · rfl
    · split <;> rfl
  | unary op n p => simp [remark?, Announced]
  | element access array i p => simp [remark?, Announced]
  | _ => simp [remark?, Announced]

def account (nodes : List Node) : List Diagnostic :=
  nodes.filterMap diagnostic?

theorem account_eq (nodes : List Node) :
    account nodes = (nodes.filterMap note?).map Note.diagnostic := by
  rw [account, List.map_filterMap]
  exact List.filterMap_congr fun n _ => diagnostic?_eq n

end Node

namespace Traced

/-- The run sends these notes and no others, and a record of each to the log. -/
def Sends (x : Traced α) (notes : List Diagnostic) : Prop :=
  x.notes.map Note.diagnostic = notes ∧ x.log = notes.map Diagnostic.logRecord

theorem sends_account {x : Traced α} (h : x.notes = nodes.filterMap note?) :
    x.Sends (account nodes) := by
  rw [Sends, account_eq, Traced.log, h, List.map_map]
  exact ⟨rfl, rfl⟩

end Traced

namespace Node

/-- An accepted script is accounted for by its nodes in post-order, a rejected one by those before
the node for which it is rejected. Which nodes are announced is known from what their operands are
reduced to. -/
theorem optimize_accounts (t : Node) :
    (∀ r, t.optimize.outcome = .ok r → t.optimize.Sends (account t.postorder)) ∧
    (∀ e, t.optimize.outcome = .error (.rejected e) →
      ∃ before n after, t.postorder = before ++ n :: after ∧ n.Explains e ∧
        (∀ m ∈ before, m.offence = none) ∧ t.optimize.Sends (account before)) ∧
    ∀ n : Node, n.diagnostic?.isSome = true ↔ n.Announced := by
  refine ⟨fun r ok => ?_, fun e rejected => ?_, fun n => diagnostic?_isSome_iff⟩
  · exact Traced.sends_account (reduction_of_outcome ok).passes.2
  · obtain ⟨before, n, after, split, explains, passes⟩ := (halt_of_outcome rejected).first_offence
    exact ⟨before, n, after, split, explains, passes.1, Traced.sends_account passes.2⟩

def tidying : Node :=
  block
    [assign (cell .write 0 none)
        (binary .mul (immediate 4 none) (immediate 8 none) (some ⟨1, 7⟩)) none,
      ifWhen (immediate 0 none) (block [invoke (.event 1) [] none] none) none ⟨false, none⟩
        (some ⟨2, 1⟩),
      assign (cell .write 1 none)
        (binary .mul (cell .read 0 none) (immediate 4 none) (some ⟨3, 7⟩)) none,
      whileLoop (binary .lt (cell .read 0 none) (immediate 3 none) none) (block [] none)
        (some ⟨4, 1⟩)] none

def tidied : Node :=
  block
    [assign (cell .write 0 none) (immediate 32 (some ⟨1, 7⟩)) none,
      assign (cell .write 1 none)
        (binary .shiftLeft (cell .read 0 none) (immediate 2 none) (some ⟨3, 7⟩)) none] none

def overworking : Node :=
  block [tidying, whileLoop (immediate 1 none) (block [] none) (some ⟨5, 2⟩)] none

theorem tidying_accounts :
    tidying.optimize.Sends
      [⟨some ⟨1, 7⟩, "binary arithmetic expression simplified", "pulsec.opt.binary"⟩,
        ⟨some ⟨2, 1⟩, "if test simplified because condition was always false",
          "pulsec.opt.if_when"⟩,
        ⟨some ⟨3, 7⟩, "multiplication transformed to left shift", "pulsec.opt.binary"⟩,
        ⟨some ⟨4, 1⟩, "while removed because it contained no statement", "pulsec.opt.while"⟩] ∧
    ∃ before n after, overworking.postorder = before ++ n :: after ∧
      n.Explains (.infiniteLoop "pulsec.opt.while" (some ⟨5, 2⟩)) ∧
      (∀ m ∈ before, m.offence = none) ∧ overworking.optimize.Sends (account before) :=
  ⟨(optimize_accounts tidying).1 (some tidied) rfl, (optimize_accounts overworking).2.1 _ rfl⟩

end Node

end EventScript
