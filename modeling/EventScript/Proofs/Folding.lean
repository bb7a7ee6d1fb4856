import EventScript.Proofs.Evaluation
import EventScript.Proofs.Postorder
import EventScript.Proofs.Safety
import Mathlib.Data.List.Basic

/-! Folding is evaluation ahead of time. Arithmetic becomes a constant exactly when it reads nothing
and has a value, and then it becomes that value. Arithmetic that reads nothing and has no value is
rejected for the operation at which its evaluation fails first, and what is rejected has no value in
any memory. -/
namespace EventScript.Node

def ReadsNothing (e : Node) : Prop :=
  ∀ x, e.Contains x → x.kind ≠ .load ∧ x.kind ≠ .arrayRead

/-- What is wrong with an operation whose operands all have values, if anything is. -/
def failure? (m : Memory) : Node → Option Cause
  | binary op left right _ => do
      let a ← left.eval m
      let b ← right.eval m
      if op.apply a b = none then some .divisionByZero else none
  | unary op operand _ => do
      let a ← operand.eval m
      if op.apply a = none then some .rangeOverflow else none
  | element .read array index _ => do
      let v ← index.eval m
      if array.locate? v = none then some (.indexOutOfBounds array.name v array.size) else none
  | _ => none

variable {e x c n : Node} {m : Memory}

/-! ### Parts of arithmetic -/

theorem ReadsNothing.part (h : e.ReadsNothing) (hc : c ∈ e.children) : c.ReadsNothing :=
  fun x hx => h x (hx.child hc)

theorem ReadsNothing.of_parts (own : e.kind ≠ .load ∧ e.kind ≠ .arrayRead)
    (parts : ∀ c ∈ e.children, c.ReadsNothing) : e.ReadsNothing := by
  intro x hx
  rcases contains_iff.mp hx with rfl | ⟨c, hc, hx⟩
  · exact own
  · exact parts c hc x hx

theorem ReadsNothing.of_contains (h : e.ReadsNothing) (hx : e.Contains x) : x.ReadsNothing :=
  fun y hy => h y (hx.trans hy)

theorem Arithmetic.part (he : e.Arithmetic) (hc : c ∈ e.children) : c.Arithmetic := by
  cases he with
  | immediate | load => cases hc
  | call allowed => cases allowed
  | arrayRead _ h | unary h => exact List.mem_singleton.mp hc ▸ h
  | binary hl hr =>
    rcases List.mem_pair.mp hc with rfl | rfl
    · exact hl
    · exact hr

theorem Arithmetic.of_contains (he : e.Arithmetic) (hx : e.Contains x) : x.Arithmetic := by
  obtain ⟨path, hx⟩ := hx
  induction path generalizing e with
  | nil => exact Option.some.inj hx ▸ he
  | cons i path ih =>
    obtain ⟨c, hc, hx⟩ := at?_cons.mp hx
    exact ih (he.part (List.mem_of_getElem? hc)) hx

theorem Arithmetic.expression (he : e.Arithmetic) (closed : e.ReadsNothing) :
    Grammar.frontEnd.Expression e := by
  induction he with
  | call allowed => cases allowed
  | immediate => exact .immediate
  | load => exact absurd rfl (closed _ ⟨[], rfl⟩).1
  | arrayRead => exact absurd rfl (closed _ ⟨[], rfl⟩).2
  | unary _ ih => exact .unary (ih (closed.part (by simp [children])))
  | binary _ _ ihl ihr =>
    exact .binary (ihl (closed.part (by simp [children]))) (ihr (closed.part (by simp [children])))

/-! ### Where evaluation fails -/

theorem eval_of_failure (h : n.failure? m = some cause) : n.eval m = none := by
  unfold failure? at h
  split at h
  · obtain ⟨a, ha, h⟩ := Option.bind_eq_some_iff.mp h
    obtain ⟨b, hb, h⟩ := Option.bind_eq_some_iff.mp h
    split at h
    · rename_i hnone
      simp [eval, ha, hb, hnone]
    · cases h
  · obtain ⟨a, ha, h⟩ := Option.bind_eq_some_iff.mp h
    split at h
    · rename_i hnone
      simp [eval, ha, hnone]
    · cases h
  · obtain ⟨v, hv, h⟩ := Option.bind_eq_some_iff.mp h
    split at h
    · rename_i hnone
      simp [eval, hv, hnone]
    · cases h
  · cases h

/-- Evaluation is strict: an operation has no value if an operand has none. -/
theorem Arithmetic.eval_of_part (he : e.Arithmetic) (hc : c ∈ e.children) (h : c.eval m = none) :
    e.eval m = none := by
  cases he with
  | immediate | load => cases hc
  | call allowed => cases allowed
  | arrayRead | unary =>
    cases List.mem_singleton.mp hc
    simp [eval, h]
  | binary =>
    rcases List.mem_pair.mp hc with rfl | rfl
    · simp [eval, h]
    · simp [eval, h]

theorem Arithmetic.eval_of_contains (he : e.Arithmetic) (hx : e.Contains x)
    (hf : x.failure? m = some cause) : e.eval m = none := by
  obtain ⟨path, hx⟩ := hx
  induction path generalizing e with
  | nil => exact Option.some.inj hx ▸ eval_of_failure hf
  | cons i path ih =>
    obtain ⟨c, hc, hx⟩ := at?_cons.mp hx
    have hmem := List.mem_of_getElem? hc
    exact he.eval_of_part hmem (ih (he.part hmem) hx)

theorem Arithmetic.failure_of_parts (he : e.Arithmetic)
    (parts : ∀ c ∈ e.children, ∃ v, c.eval m = some v) (h : e.eval m = none) :
    ∃ cause, e.failure? m = some cause := by
  cases he with
  | immediate | load => cases h
  | call allowed => cases allowed
  | @arrayRead array i p =>
    obtain ⟨v, hv⟩ := parts i (by simp [children])
    have outside : array.locate? v = none := by
      rw [Option.eq_none_iff_forall_ne_some]
      simpa [eval, hv] using h
    exact ⟨.indexOutOfBounds array.name v array.size, by simp [failure?, hv, outside]⟩
  | @unary n op p =>
    obtain ⟨a, ha⟩ := parts n (by simp [children])
    have hnone : op.apply a = none := by simpa [eval, ha] using h
    exact ⟨.rangeOverflow, by simp [failure?, ha, hnone]⟩
  | @binary l r op p =>
    obtain ⟨a, ha⟩ := parts l (by simp [children])
    obtain ⟨b, hb⟩ := parts r (by simp [children])
    have hnone : op.apply a b = none := by simpa [eval, ha, hb] using h
    exact ⟨.divisionByZero, by simp [failure?, ha, hb, hnone]⟩

/-- Evaluation fails only at an operation whose operands have values. -/
theorem Arithmetic.exists_failure (he : e.Arithmetic) (h : e.eval m = none) :
    ∃ x, e.Contains x ∧ ∃ cause, x.failure? m = some cause := by
  induction e using children_induction with
  | step e ih =>
    by_cases below : ∃ c ∈ e.children, c.eval m = none
    · obtain ⟨c, hc, hnone⟩ := below
      obtain ⟨x, hx, failed⟩ := ih c hc (he.part hc) hnone
      exact ⟨x, hx.child hc, failed⟩
    · have parts : ∀ c ∈ e.children, ∃ v, c.eval m = some v := fun c hc =>
        Option.ne_none_iff_exists'.mp fun hnone => below ⟨c, hc, hnone⟩
      exact ⟨e, ⟨[], rfl⟩, he.failure_of_parts parts h⟩

/-! ### Constants -/

theorem Arithmetic.of_constant (he : e.Arithmetic)
    (h : Reduction (some e) ns (some (.immediate v q))) : e.ReadsNothing ∧ q = e.position := by
  induction he generalizing ns v q with
  | call allowed => cases allowed
  | immediate =>
    cases h
    exact ⟨.of_parts (by simp [kind]) (by simp [children]), rfl⟩
  | load | arrayRead => cases h
  | unary _ ih =>
    cases h with
    | unaryFolded hn _ =>
      exact ⟨.of_parts (by simp [kind]) (by simp [children, (ih hn).1]), rfl⟩
  | binary _ _ ihl ihr =>
    cases h with
    | binaryFolded hl hr _ =>
      exact ⟨.of_parts (by simp [kind]) (by simp [children, (ihl hl).1, (ihr hr).1]), rfl⟩

/-- Nothing stands in the way of a complete fold: constants meet constants all the way up. -/
theorem Arithmetic.folded (he : e.Arithmetic) (closed : e.ReadsNothing) (hv : e.eval m = some v) :
    ∃ ns, Reduction (some e) ns (some (.immediate v e.position)) := by
  induction he generalizing v with
  | call allowed => cases allowed
  | immediate =>
    cases hv
    exact ⟨_, .immediate⟩
  | load => exact absurd rfl (closed _ ⟨[], rfl⟩).1
  | arrayRead => exact absurd rfl (closed _ ⟨[], rfl⟩).2
  | unary _ ih =>
    obtain ⟨a, ha, hv⟩ := Option.bind_eq_some_iff.mp hv
    obtain ⟨_, hn⟩ := ih (closed.part (by simp [children])) ha
    exact ⟨_, .unaryFolded hn hv⟩
  | binary _ _ ihl ihr =>
    obtain ⟨a, ha, hv⟩ := Option.bind_eq_some_iff.mp hv
    obtain ⟨b, hb, hv⟩ := Option.bind_eq_some_iff.mp hv
    obtain ⟨_, hl⟩ := ihl (closed.part (by simp [children])) ha
    obtain ⟨_, hr⟩ := ihr (closed.part (by simp [children])) hb
    exact ⟨_, .binaryFolded hl hr hv⟩

theorem Arithmetic.eval_of_constant? (he : e.Arithmetic) (h : e.constant? = some v) :
    e.eval m = some v := by
  obtain ⟨ns, q, h⟩ := Reduction.of_constant? h
  exact h.eval_of_constant he

theorem Arithmetic.constant?_eq_eval (he : e.Arithmetic) (closed : e.ReadsNothing) :
    e.constant? = e.eval m := by
  cases hv : e.eval m with
  | some v =>
    obtain ⟨ns, h⟩ := he.folded closed hv
    exact h.constant?_eq
  | none =>
    rw [Option.eq_none_iff_forall_ne_some]
    intro v h
    rw [he.eval_of_constant? h] at hv
    cases hv

/-! ### Offences are failures -/

/-- What the optimizer holds against a node goes wrong in every memory. -/
theorem Arithmetic.failure_of_offence (he : e.Arithmetic) (h : e.offence = some cause) :
    e.failure? m = some cause := by
  cases he with
  | immediate | load => cases h
  | call allowed => cases allowed
  | @arrayRead array i p _ hi =>
    simp only [offence] at h
    split at h
    · rename_i hv
      split at h
      · rename_i outside
        have nowhere : array.locate? _ = none :=
          if_neg fun inside => index_inside_iff.mpr inside outside
        simpa [failure?, Arithmetic.eval_of_constant? hi hv, nowhere] using h
      · cases h
    · cases h
  | unary hn =>
    simp only [offence] at h
    split at h
    · rename_i bad
      have hnone := UnaryOp.apply_eq_none_iff.mpr ⟨bad.1, rfl⟩
      simpa [failure?, Arithmetic.eval_of_constant? hn bad.2, hnone] using h
    · cases h
  | binary hl hr =>
    simp only [offence] at h
    split at h
    · rename_i bad
      obtain ⟨a, ha⟩ := Option.isSome_iff_exists.mp bad.2.1
      have hnone := BinaryOp.apply_eq_none_iff (a := a) |>.mpr ⟨bad.1, rfl⟩
      simpa [failure?, Arithmetic.eval_of_constant? hl ha,
        Arithmetic.eval_of_constant? hr bad.2.2, hnone] using h
    · cases h

theorem Arithmetic.offence_eq_failure (he : e.Arithmetic) (closed : e.ReadsNothing) :
    e.offence = e.failure? m := by
  cases he with
  | immediate | load => rfl
  | call allowed => cases allowed
  | arrayRead => exact absurd rfl (closed _ ⟨[], rfl⟩).2
  | @unary n op p hn =>
    have hc := Arithmetic.constant?_eq_eval (m := m) hn (closed.part (by simp [children]))
    cases ha : n.eval m <;> simp [offence, failure?, hc, ha, UnaryOp.apply_eq_none_iff]
  | @binary l r op p hl hr =>
    have hcl := Arithmetic.constant?_eq_eval (m := m) hl (closed.part (by simp [children]))
    have hcr := Arithmetic.constant?_eq_eval (m := m) hr (closed.part (by simp [children]))
    cases ha : l.eval m <;> cases hb : r.eval m <;>
      simp [offence, failure?, hcl, hcr, ha, hb, BinaryOp.apply_eq_none_iff]

theorem Arithmetic.mem_postorder_iff (he : e.Arithmetic) : x ∈ e.postorder ↔ e.Contains x := by
  rw [mem_postorder]
  constructor
  · intro hx
    obtain ⟨path, hpath, -⟩ := mem_outer_iff.mp hx
    exact ⟨path, hpath⟩
  · intro hx
    rcases hx.outer_or_call with hx | ⟨n, hn, call, -⟩
    · exact hx
    · obtain ⟨path, hpath, -⟩ := mem_outer_iff.mp hn
      cases he.of_contains ⟨path, hpath⟩ with
      | call allowed => cases allowed
      | _ => cases call

/-- Arithmetic becomes a constant exactly when it reads nothing and has that value; the constant
stands where the arithmetic stood. If it reads nothing and has no value, it is rejected for the
operation that fails first, from the left and from the inside. If it is rejected, it has no value
in any memory. -/
theorem optimize_folds_constants (he : e.Arithmetic) (m : Memory) :
    (∀ v q, e.optimize.outcome = .ok (some (immediate v q)) ↔
      e.ReadsNothing ∧ e.eval m = some v ∧ q = e.position) ∧
    (e.ReadsNothing → e.eval m = none →
      ∃ rejection before n after, e.optimize.outcome = .error (.rejected rejection) ∧
        e.postorder = before ++ n :: after ∧ n.failure? m = some rejection.cause ∧
        rejection.position = n.position ∧ ∀ x ∈ before, x.failure? m = none) ∧
    ∀ rejection, e.optimize.outcome = .error (.rejected rejection) → e.eval m = none := by
  refine ⟨fun v q => ⟨fun ok => ?_, fun folds => ?_⟩, fun closed failed => ?_,
    fun rejection rejected => ?_⟩
  · have h := reduction_of_outcome ok
    exact ⟨(he.of_constant h).1, h.eval_of_constant he, (he.of_constant h).2⟩
  · obtain ⟨closed, hv, rfl⟩ := folds
    obtain ⟨ns, h⟩ := he.folded closed hv
    rw [h.optimize_eq]
  · have same : ∀ x ∈ e.postorder, x.offence = x.failure? m := fun x hx =>
      have hx := he.mem_postorder_iff.mp hx
      (he.of_contains hx).offence_eq_failure (closed.of_contains hx)
    have formed : Grammar.frontEnd.WellFormed e := .expression (he.expression closed)
    rcases formed.ends rfl with ⟨r, ok⟩ | ⟨rejection, rejected⟩
    · obtain ⟨x, hx, cause, hfail⟩ := he.exists_failure failed
      have hmem := he.mem_postorder_iff.mpr hx
      rw [← same x hmem, (reduction_of_outcome ok).passes.1 x hmem] at hfail
      cases hfail
    · obtain ⟨before, n, after, split, explains, clean, -⟩ :=
        (halt_of_outcome rejected).first_offence
      refine ⟨rejection, before, n, after, rejected, split, ?_, explains.position, fun x hx => ?_⟩
      · rw [← same n (by simp [split]), explains.cause]
      · rw [← same x (by simp [split, hx]), clean x hx]
  · obtain ⟨before, n, after, split, explains, -⟩ := (halt_of_outcome rejected).first_offence
    have hn := he.mem_postorder_iff.mp (show n ∈ e.postorder by simp [split])
    exact he.eval_of_contains hn ((he.of_contains hn).failure_of_offence explains.cause)

def distance : Node :=
  unary .abs (binary .sub (immediate 3 none) (immediate 8 none) (some ⟨1, 6⟩)) (some ⟨1, 2⟩)

def failing : Node :=
  binary .add (unary .abs (immediate (-32768) none) (some ⟨2, 1⟩))
    (binary .div (immediate 1 none) (immediate 0 none) (some ⟨2, 9⟩)) none

def drowned : Node :=
  binary .mul (cell .read 0 none) failing none

theorem distance_folds_constants :
    (distance.ReadsNothing ∧ distance.eval (fun _ => 7) = some 5) ∧
    (failing.ReadsNothing ∧ ∃ rejection before n after,
      failing.optimize.outcome = .error (.rejected rejection) ∧
        failing.postorder = before ++ n :: after ∧
        n.failure? (fun _ => 7) = some rejection.cause ∧
        rejection.position = n.position ∧ ∀ x ∈ before, x.failure? (fun _ => 7) = none) ∧
    drowned.eval (fun _ => 7) = none := by
  have sound : distance.Arithmetic := .unary (.binary .immediate .immediate)
  have wrong : failing.Arithmetic := .binary (.unary .immediate) (.binary .immediate .immediate)
  have five := ((optimize_folds_constants sound fun _ => 7).1 5 (some ⟨1, 2⟩)).mp rfl
  have leaf : ∀ v, (immediate v none).ReadsNothing := fun v =>
    .of_parts (by simp [kind]) (List.forall_mem_nil _)
  have closed : failing.ReadsNothing := by
    refine .of_parts (by decide) fun c hc => ?_
    rcases List.mem_pair.mp hc with rfl | rfl
    · exact .of_parts (by decide) (List.forall_mem_singleton.mpr (leaf _))
    · refine .of_parts (by decide) fun c hc => ?_
      rcases List.mem_pair.mp hc with rfl | rfl <;> exact leaf _
  refine ⟨⟨five.1, five.2.1⟩, ⟨closed, ?_⟩, ?_⟩
  · exact (optimize_folds_constants wrong fun _ => 7).2.1 closed rfl
  · exact (optimize_folds_constants (.binary .load wrong) fun _ => 7).2.2
      (.rangeOverflow "pulsec.opt.unary" (some ⟨2, 1⟩)) rfl

end EventScript.Node
