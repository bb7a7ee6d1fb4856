import EventScript.Node.Basic

/-! Where a node stands in a tree. A path names one part after the other by its place among the
parts; what it passes on its way decides whether its end lies in the arguments of a call, which the
optimizer does not enter. -/
namespace EventScript.Node

def isCall : Node → Bool
  | invoke .. => true
  | _ => false

def isFolded : Node → Bool
  | foldedIf .. | foldedWhile .. => true
  | _ => false

def at? : Node → List Nat → Option Node
  | n, [] => some n
  | n, i :: path => n.children[i]?.bind fun c => c.at? path

/-- The path goes through a call and on into its arguments. -/
def InArguments (n : Node) (path : List Nat) : Prop :=
  ∃ before i after callee args p,
    path = before ++ i :: after ∧ n.at? before = some (invoke callee args p)

def Contains (n x : Node) : Prop := ∃ path, n.at? path = some x

mutual

/-- The nodes of a tree that are not in the arguments of a call, each before its parts. -/
def outer : Node → List Node
  | block statements p => block statements p :: outerAll statements
  | assign target value p => assign target value p :: (target.outer ++ value.outer)
  | ifWhen condition onTrue onFalse form p =>
      ifWhen condition onTrue onFalse form p ::
        (condition.outer ++ onTrue.outer ++ outerSlot onFalse)
  | foldedIf op left right onTrue onFalse form p =>
      foldedIf op left right onTrue onFalse form p ::
        (left.outer ++ right.outer ++ onTrue.outer ++ outerSlot onFalse)
  | whileLoop condition body p => whileLoop condition body p :: (condition.outer ++ body.outer)
  | foldedWhile op left right body p =>
      foldedWhile op left right body p :: (left.outer ++ right.outer ++ body.outer)
  | binary op left right p => binary op left right p :: (left.outer ++ right.outer)
  | unary op operand p => unary op operand p :: operand.outer
  | element access array index p => element access array index p :: index.outer
  | other => [other]

def outerAll : List Node → List Node
  | [] => []
  | node :: rest => node.outer ++ outerAll rest

def outerSlot : Option Node → List Node
  | none => []
  | some node => node.outer

end

/-! ### Induction over trees -/

theorem sizeOf_lt_of_mem_children {n c : Node} (h : c ∈ n.children) : sizeOf c < sizeOf n := by
  cases n with
  | block ss p =>
    have := List.sizeOf_lt_of_mem (show c ∈ ss from h)
    simp only [block.sizeOf_spec]
    omega
  | invoke callee args p =>
    have := List.sizeOf_lt_of_mem (show c ∈ args from h)
    simp only [invoke.sizeOf_spec]
    omega
  | ifWhen cond t e form p =>
    cases e <;> simp only [children, Option.toList, List.mem_cons, List.not_mem_nil] at h <;>
      simp only [ifWhen.sizeOf_spec, Option.some.sizeOf_spec] <;> grind
  | foldedIf op l r t e form p =>
    cases e <;> simp only [children, Option.toList, List.mem_cons, List.not_mem_nil] at h <;>
      simp only [foldedIf.sizeOf_spec, Option.some.sizeOf_spec] <;> grind
  | _ => simp only [children, List.mem_cons, List.not_mem_nil] at h <;> grind

theorem mem_children_onFalse {e : Option Node} (h : n ∈ e) :
    n ∈ (ifWhen c t e form p).children :=
  List.mem_cons_of_mem c (List.mem_cons_of_mem t (Option.mem_toList.mpr h))

theorem children_induction {P : Node → Prop} (step : ∀ n, (∀ c ∈ n.children, P c) → P n)
    (n : Node) : P n :=
  step n fun c hc =>
    have := sizeOf_lt_of_mem_children hc
    children_induction step c
termination_by sizeOf n

theorem outerAll_eq (ns : List Node) : outerAll ns = ns.flatMap outer := by
  induction ns with
  | nil => rfl
  | cons n rest ih => rw [outerAll, ih, List.flatMap_cons]

theorem outerSlot_eq (s : Option Node) : outerSlot s = s.toList.flatMap outer := by
  cases s <;> simp [outerSlot]

theorem outer_eq (n : Node) :
    n.outer = n :: if n.isCall then [] else n.children.flatMap outer := by
  cases n <;> simp [outer, isCall, children, outerAll_eq, outerSlot_eq]

theorem mem_outer {n x : Node} :
    x ∈ n.outer ↔ x = n ∨ n.isCall = false ∧ ∃ c ∈ n.children, x ∈ c.outer := by
  rw [outer_eq, List.mem_cons]
  cases n.isCall <;> simp

theorem forall_mem_outer {n : Node} {P : Node → Prop} :
    (∀ x ∈ n.outer, P x) ↔
      P n ∧ (n.isCall = false → ∀ c ∈ n.children, ∀ x ∈ c.outer, P x) := by
  constructor
  · intro h
    exact ⟨h n (mem_outer.mpr (.inl rfl)),
      fun call c hc x hx => h x (mem_outer.mpr (.inr ⟨call, c, hc, hx⟩))⟩
  · rintro ⟨hn, hparts⟩ x hx
    obtain rfl | ⟨call, c, hc, hx⟩ := mem_outer.mp hx
    · exact hn
    · exact hparts call c hc x hx

/-! ### Paths -/

theorem at?_cons {n x : Node} :
    n.at? (i :: path) = some x ↔ ∃ c, n.children[i]? = some c ∧ c.at? path = some x := by
  rw [at?, Option.bind_eq_some_iff]

theorem at?_append (n : Node) (path path' : List Nat) :
    n.at? (path ++ path') = (n.at? path).bind fun c => c.at? path' := by
  induction path generalizing n with
  | nil => rfl
  | cons i path ih =>
    rw [List.cons_append, at?, at?]
    cases n.children[i]? with
    | none => rfl
    | some c => exact ih c

theorem contains_iff {n x : Node} : n.Contains x ↔ x = n ∨ ∃ c ∈ n.children, c.Contains x := by
  constructor
  · rintro ⟨_ | ⟨i, path⟩, h⟩
    · exact .inl (Option.some.inj h).symm
    · obtain ⟨c, hc, hx⟩ := at?_cons.mp h
      exact .inr ⟨c, List.mem_of_getElem? hc, path, hx⟩
  · rintro (rfl | ⟨c, hc, path, hx⟩)
    · exact ⟨[], rfl⟩
    · obtain ⟨i, hi⟩ := List.getElem?_of_mem hc
      exact ⟨i :: path, at?_cons.mpr ⟨c, hi, hx⟩⟩

theorem Contains.child {n c x : Node} (h : c.Contains x) (hc : c ∈ n.children) : n.Contains x :=
  contains_iff.mpr (.inr ⟨c, hc, h⟩)

theorem Contains.trans {n c x : Node} (hc : n.Contains c) (hx : c.Contains x) : n.Contains x := by
  obtain ⟨path, hc⟩ := hc
  obtain ⟨path', hx⟩ := hx
  exact ⟨path ++ path', by rw [at?_append, hc, Option.bind_some, hx]⟩

theorem isCall_iff {n : Node} : n.isCall = true ↔ ∃ callee args p, n = invoke callee args p := by
  cases n <;> simp [isCall]

theorem not_inArguments_nil (n : Node) : ¬ n.InArguments [] := by
  rintro ⟨before, i, after, _, _, _, h, _⟩
  simp at h

theorem inArguments_cons {n : Node} (hc : n.children[i]? = some c) :
    n.InArguments (i :: path) ↔ n.isCall = true ∨ c.InArguments path := by
  constructor
  · rintro ⟨_ | ⟨j, before⟩, k, after, callee, args, p, h, hcall⟩
    · exact .inl (isCall_iff.mpr ⟨callee, args, p, Option.some.inj hcall⟩)
    · obtain ⟨rfl, rfl⟩ := List.cons.inj h
      obtain ⟨c', hc', hcall⟩ := at?_cons.mp hcall
      cases hc.symm.trans hc'
      exact .inr ⟨before, k, after, callee, args, p, rfl, hcall⟩
  · rintro (call | ⟨before, k, after, callee, args, p, rfl, hcall⟩)
    · obtain ⟨callee, args, p, rfl⟩ := isCall_iff.mp call
      exact ⟨[], i, path, callee, args, p, rfl, rfl⟩
    · exact ⟨i :: before, k, after, callee, args, p, rfl, at?_cons.mpr ⟨c, hc, hcall⟩⟩

theorem not_inArguments_cons {n : Node} (hc : n.children[i]? = some c) (plain : n.isCall = false)
    (hout : ¬ c.InArguments path) : ¬ n.InArguments (i :: path) := by
  rw [inArguments_cons hc, plain]
  simpa using hout

/-- The outer nodes are those that a path reaches without going into the arguments of a call. -/
theorem mem_outer_iff {n x : Node} :
    x ∈ n.outer ↔ ∃ path, n.at? path = some x ∧ ¬ n.InArguments path := by
  constructor
  · induction n using children_induction with
    | step n ih =>
      intro hx
      obtain rfl | ⟨hcall, c, hc, hx⟩ := mem_outer.mp hx
      · exact ⟨[], rfl, not_inArguments_nil x⟩
      · obtain ⟨path, hpath, hout⟩ := ih c hc hx
        obtain ⟨i, hi⟩ := List.getElem?_of_mem hc
        exact ⟨i :: path, at?_cons.mpr ⟨c, hi, hpath⟩, not_inArguments_cons hi hcall hout⟩
  · rintro ⟨path, hpath, hout⟩
    induction path generalizing n with
    | nil => exact mem_outer.mpr (.inl (Option.some.inj hpath).symm)
    | cons i path ih =>
      obtain ⟨c, hc, hx⟩ := at?_cons.mp hpath
      rw [inArguments_cons hc, not_or, Bool.not_eq_true] at hout
      exact mem_outer.mpr (.inr ⟨hout.1, c, List.mem_of_getElem? hc, ih hx hout.2⟩)

theorem forall_outer_iff_path {n : Node} {p : Node → Bool} :
    (∀ x ∈ n.outer, p x = false) ↔
      ∀ path x, n.at? path = some x → p x = true → n.InArguments path := by
  constructor
  · intro h path x hx hp
    by_cases hin : n.InArguments path
    · exact hin
    · rw [h x (mem_outer_iff.mpr ⟨path, hx, hin⟩)] at hp
      cases hp
  · intro h x hx
    obtain ⟨path, hpath, hout⟩ := mem_outer_iff.mp hx
    rw [← Bool.not_eq_true]
    exact fun hp => hout (h path x hpath hp)

/-- Whatever is not an outer node is in an outer call. -/
theorem Contains.outer_or_call {n x : Node} (h : n.Contains x) :
    x ∈ n.outer ∨ ∃ c ∈ n.outer, c.isCall = true ∧ c.Contains x := by
  induction n using children_induction with
  | step n ih =>
    obtain rfl | ⟨c, hc, hx⟩ := contains_iff.mp h
    · exact .inl (mem_outer.mpr (.inl rfl))
    · cases call : n.isCall with
      | true => exact .inr ⟨n, mem_outer.mpr (.inl rfl), call, h⟩
      | false =>
        obtain hx | ⟨d, hd, hcall, hx⟩ := ih c hc hx
        · exact .inl (mem_outer.mpr (.inr ⟨call, c, hc, hx⟩))
        · exact .inr ⟨d, mem_outer.mpr (.inr ⟨call, c, hc, hd⟩), hcall, hx⟩

end EventScript.Node
