import EventScript.Node.Outline
import EventScript.Proofs.Occurrence
import EventScript.Proofs.RoundTrip

/-! The outline of a tree can be read in one way only. A line tells the kind of its node and
everything that the node holds beside its parts; its indentation tells where it belongs. What is
lost is the position of every node, and where an unfused conditional ends. -/
namespace EventScript

namespace Node

mutual

/-- The tree without positions and without the last lines of unfused conditionals. -/
def bare : Node → Node
  | block statements _ => block (bareAll statements) none
  | assign target value _ => assign target.bare value.bare none
  | ifWhen condition onTrue onFalse form _ =>
      ifWhen condition.bare onTrue.bare (bareSlot onFalse) { form with endLine := none } none
  | foldedIf op left right onTrue onFalse form _ =>
      foldedIf op left.bare right.bare onTrue.bare (bareSlot onFalse) form none
  | whileLoop condition body _ => whileLoop condition.bare body.bare none
  | foldedWhile op left right body _ => foldedWhile op left.bare right.bare body.bare none
  | declare entity _ => declare entity none
  | invoke callee args _ => invoke callee (bareAll args) none
  | binary op left right _ => binary op left.bare right.bare none
  | unary op operand _ => unary op operand.bare none
  | immediate value _ => immediate value none
  | cell access address _ => cell access address none
  | element access array index _ => element access array index.bare none

def bareAll : List Node → List Node
  | [] => []
  | node :: rest => node.bare :: bareAll rest

def bareSlot : Option Node → Option Node
  | none => none
  | some node => some node.bare

end

/-- No array of the tree has a line feed in its name. -/
def PlainNames (n : Node) : Prop :=
  ∀ access array index p, n.Contains (element access array index p) → '\n' ∉ array.name.toList

theorem PlainNames.child {n c : Node} (h : n.PlainNames) (hc : c ∈ n.children) : c.PlainNames :=
  fun access array index p inside => h access array index p (inside.child hc)

theorem PlainNames.of_parts {n : Node}
    (own : ∀ access array index p, n = element access array index p → '\n' ∉ array.name.toList)
    (parts : ∀ c ∈ n.children, c.PlainNames) : n.PlainNames := by
  intro access array index p inside
  obtain h | ⟨c, hc, inside⟩ := contains_iff.mp inside
  · exact own access array index p h.symm
  · exact parts c hc access array index p inside

theorem bareAll_eq (ns : List Node) : bareAll ns = ns.map bare := by
  induction ns with
  | nil => rfl
  | cons n rest ih => rw [bareAll, ih, List.map_cons]

theorem bare_withPosition (n : Node) (p : Option Position) : (n.withPosition p).bare = n.bare := by
  cases n <;> rfl

theorem heading_withPosition (n : Node) (p : Option Position) :
    (n.withPosition p).heading = n.heading := by
  cases n with
  | declare entity q => cases entity <;> rfl
  | invoke callee args q => cases callee <;> rfl
  | cell access address q => cases access <;> rfl
  | _ => rfl

theorem children_withPosition (n : Node) (p : Option Position) :
    (n.withPosition p).children = n.children := by
  cases n <;> rfl

end Node

/-! ### The first words of a line -/

/-- What a line says before its colon, if it has one. -/
def Kind.caption : Kind → (edgeSensitive : Bool) → String
  | block, _ => "Block"
  | assignment, _ => "Assign"
  | ifWhen, edge => if edge then "When" else "If"
  | foldedIfWhen, edge => if edge then "Folded when" else "Folded if"
  | whileLoop, _ => "While"
  | foldedWhile, _ => "Folded while"
  | eventDecl, _ => "Event"
  | subDecl, _ => "Sub"
  | emit, _ => "Emit"
  | callSub, _ => "CallSub"
  | call, _ => "Call"
  | binary, _ => "Arithmetic"
  | unary, _ => "Unary arithmetic"
  | immediate, _ => "Immediate"
  | load, _ => "Load"
  | store, _ => "Store"
  | arrayRead, _ => "ArrayRead"
  | arrayWrite, _ => "ArrayWrite"

def Kind.ofCaption? (caption : String) : Option Kind :=
  all.find? fun kind => kind.caption false == caption || kind.caption true == caption

theorem Kind.ofCaption?_caption (kind : Kind) (edge : Bool) :
    ofCaption? (kind.caption edge) = some kind := by
  cases kind <;> cases edge <;> decide

def BinaryOp.ofSymbol? (symbol : String) : Option BinaryOp :=
  all.find? fun op => op.symbol == symbol

theorem BinaryOp.ofSymbol?_symbol (op : BinaryOp) : ofSymbol? op.symbol = some op := by
  cases op <;> decide

theorem BinaryOp.symbol_inj {op op' : BinaryOp} (h : op.symbol = op'.symbol) : op = op' := by
  have same := congrArg ofSymbol? h
  rw [ofSymbol?_symbol, ofSymbol?_symbol] at same
  exact Option.some.inj same

namespace Node

def isEdgeSensitive : Node → Bool
  | ifWhen _ _ _ form _ | foldedIf _ _ _ _ _ form _ => form.edgeSensitive
  | _ => false

/-- What a line says after its colon, if it has one. -/
def detail? : Node → Option String
  | block .. | assign .. | ifWhen .. | whileLoop .. => none
  | foldedIf op _ _ _ _ form _ =>
      match form.endLine with
      | some line => some (op.symbol ++ " (end line " ++ toString line.toNat ++ ")")
      | none => some op.symbol
  | foldedWhile op .. | binary op .. => some op.symbol
  | unary op .. => some op.symbol
  | declare (.event id) _ | declare (.sub id) _ => some (toString id.toNat)
  | invoke (.event id) .. | invoke (.sub id) .. | invoke (.function id) .. =>
      some (toString id.toNat)
  | immediate value _ => some (toString value.toInt)
  | cell _ address _ => some ("addr " ++ toString address.toNat)
  | element _ array _ _ =>
      some (array.name ++ " (addr " ++ toString array.address.toNat ++ ", size " ++
        toString array.size.toNat ++ ")")

def labelled (caption : String) : Option String → String
  | none => caption
  | some detail => caption ++ ": " ++ detail

theorem eq_labelled {start caption : String} (h : start = caption ++ ": ") (detail : String) :
    start ++ detail = labelled caption (some detail) := by
  rw [h, labelled]

theorem heading_eq (n : Node) :
    n.heading = labelled (n.kind.caption n.isEdgeSensitive) n.detail? := by
  cases n with
  | foldedIf op l r t e form p =>
    obtain ⟨edge, line⟩ := form
    have start : (if edge then "Folded when: " else "Folded if: ") =
        Kind.foldedIfWhen.caption edge ++ ": " := by
      cases edge <;> decide
    cases line with
    | none => exact eq_labelled start _
    | some line =>
      show _ ++ op.symbol ++ " (end line " ++ toString line.toNat ++ ")" = _
      simp only [String.append_assoc]
      rw [eq_labelled start]
      simp only [detail?, String.append_assoc, kind, isEdgeSensitive]
  | declare entity p => cases entity <;> rfl
  | invoke callee args p => cases callee <;> rfl
  | cell access address p =>
    cases access with
    | read =>
      show "Load: " ++ "addr " ++ _ = _
      rw [String.append_assoc]
      rfl
    | write =>
      show "Store: " ++ "addr " ++ _ = _
      rw [String.append_assoc]
      rfl
  | element access array i p =>
    have joined (start : String) : start ++ array.name ++ " (addr " ++
        toString array.address.toNat ++ ", size " ++ toString array.size.toNat ++ ")" =
        start ++ (array.name ++ " (addr " ++ toString array.address.toNat ++ ", size " ++
          toString array.size.toNat ++ ")") := by
      simp only [String.append_assoc]
    cases access <;> exact (joined _).trans rfl
  | _ => rfl

end Node

/-! ### Reading a line -/

theorem cut_unique {a : Char} {x x' y y' : List Char} (hx : a ∉ x) (hx' : a ∉ x')
    (hy : ∀ c ∈ y.head?, c = a) (hy' : ∀ c ∈ y'.head?, c = a) (h : x ++ y = x' ++ y') :
    x = x' ∧ y = y' := by
  induction x generalizing x' with
  | nil =>
    cases x' with
    | nil => exact ⟨rfl, h⟩
    | cons c x' =>
      have first : c = a := hy c (by simp [show y = c :: (x' ++ y') from h])
      exact absurd (first ▸ List.mem_cons_self) hx'
  | cons c x ih =>
    cases x' with
    | nil =>
      have first : c = a := hy' c (by simp [show y' = c :: (x ++ y) from h.symm])
      exact absurd (first ▸ List.mem_cons_self) hx
    | cons c' x' =>
      obtain ⟨rfl, tails⟩ := List.cons.inj h
      obtain ⟨rfl, rest⟩ := ih (fun m => hx (.tail c m)) (fun m => hx' (.tail c m)) tails
      exact ⟨rfl, rest⟩

theorem last_cut_unique {a : Char} {x x' y y' : List Char} (hy : a ∉ y) (hy' : a ∉ y')
    (h : x ++ a :: y = x' ++ a :: y') : x = x' ∧ y = y' := by
  have back : y.reverse ++ (a :: x.reverse) = y'.reverse ++ (a :: x'.reverse) := by
    simpa using congrArg List.reverse h
  obtain ⟨tails, fronts⟩ := cut_unique (by simpa using hy) (by simpa using hy') (by simp) (by simp)
    back
  exact ⟨List.reverse_injective (List.cons.inj fronts).2, List.reverse_injective tails⟩

theorem toList_toString_nat (n : Nat) : (toString n).toList = Nat.toDigits 10 n :=
  Nat.toList_repr

theorem toDigits_inj {m n : Nat} (h : Nat.toDigits 10 m = Nat.toDigits 10 n) : m = n := by
  rw [← @Nat.ofDigitChars_ten_toDigits m, h, Nat.ofDigitChars_ten_toDigits]

theorem notMem_toDigits {c : Char} (h : Json.isDigit c = false) (n : Nat) :
    c ∉ Nat.toDigits 10 n :=
  fun m => Bool.false_ne_true (h.symm.trans (Json.isDigit_of_mem_toDigits m))

theorem eq_of_toString_word {m n : UInt64} (h : toString m.toNat = toString n.toNat) : m = n := by
  rw [← String.toList_inj, toList_toString_nat, toList_toString_nat] at h
  exact UInt64.toNat_inj.mp (toDigits_inj h)

theorem toList_toString_int (i : Int) : (toString i).toList = (Json.number i).chars 0 := rfl

theorem eq_of_toString_int {i j : Int} (h : toString i = toString j) : i = j := by
  have sign (n : Nat) := notMem_toDigits (show Json.isDigit '-' = false by decide) n
  rw [← String.toList_inj, toList_toString_int, toList_toString_int] at h
  cases i with
  | ofNat m =>
    cases j with
    | ofNat n =>
      rw [Int.ofNat_eq_natCast, Int.ofNat_eq_natCast, Json.chars_number_natCast,
        Json.chars_number_natCast] at h
      rw [toDigits_inj h]
    | negSucc n =>
      rw [Int.ofNat_eq_natCast, Json.chars_number_natCast, Json.chars_number_negSucc] at h
      exact absurd (h ▸ List.mem_cons_self) (sign m)
  | negSucc m =>
    cases j with
    | ofNat n =>
      rw [Int.ofNat_eq_natCast, Json.chars_number_natCast, Json.chars_number_negSucc] at h
      exact absurd (h ▸ List.mem_cons_self) (sign n)
    | negSucc n =>
      rw [Json.chars_number_negSucc, Json.chars_number_negSucc] at h
      rw [Nat.succ_inj.mp (toDigits_inj (List.cons.inj h).2)]

theorem Kind.caption_eq_cons (kind : Kind) (edge : Bool) :
    ∃ c text, (kind.caption edge).toList = c :: text ∧ c.isAlpha = true ∧
      (text.all fun x => x.isAlpha || x = ' ') = true := by
  cases kind <;> cases edge <;> exact ⟨_, _, rfl, by decide, by decide⟩

theorem Kind.notMem_caption {x : Char} (letter : x.isAlpha = false) (blank : x ≠ ' ') (kind : Kind)
    (edge : Bool) : x ∉ (kind.caption edge).toList := by
  obtain ⟨c, text, h, hc, htext⟩ := kind.caption_eq_cons edge
  rw [h, List.mem_cons, not_or]
  constructor
  · rintro rfl
    simp [letter] at hc
  · intro hx
    simpa [letter, blank] using List.all_eq_true.mp htext x hx

theorem Kind.caption_inj {kind kind' : Kind} (h : kind.caption edge = kind'.caption edge') :
    kind = kind' := by
  have same := congrArg ofCaption? h
  rw [ofCaption?_caption, ofCaption?_caption] at same
  exact Option.some.inj same

theorem Kind.edge_of_caption {kind : Kind} (hk : kind = ifWhen ∨ kind = foldedIfWhen)
    (h : kind.caption edge = kind.caption edge') : edge = edge' := by
  revert h
  rcases hk with rfl | rfl <;> cases edge <;> cases edge' <;> decide

theorem BinaryOp.blank_notMem_symbol (op : BinaryOp) : ' ' ∉ op.symbol.toList := by
  cases op <;> decide

theorem UnaryOp.symbol_inj {op op' : UnaryOp} (h : op.symbol = op'.symbol) : op = op' := by
  revert h
  cases op <;> cases op' <;> decide

namespace Node

/-- A line from its colon on. -/
def fromColon : Option String → List Char
  | none => []
  | some detail => ':' :: ' ' :: detail.toList

theorem toList_labelled (caption : String) (detail : Option String) :
    (labelled caption detail).toList = caption.toList ++ fromColon detail := by
  cases detail <;> simp [labelled, fromColon]

theorem head_fromColon (detail : Option String) : ∀ c ∈ (fromColon detail).head?, c = ':' := by
  cases detail <;> simp [fromColon]

theorem fromColon_inj (h : fromColon detail = fromColon detail') : detail = detail' := by
  cases detail <;> cases detail' <;> simp_all [fromColon, String.toList_inj]

theorem labelled_inj {caption caption' : String} {detail detail' : Option String}
    (plain : ':' ∉ caption.toList) (plain' : ':' ∉ caption'.toList)
    (h : labelled caption detail = labelled caption' detail') :
    caption = caption' ∧ detail = detail' := by
  rw [← String.toList_inj, toList_labelled, toList_labelled] at h
  obtain ⟨front, back⟩ := cut_unique plain plain' (head_fromColon detail) (head_fromColon detail') h
  exact ⟨String.toList_inj.mp front, fromColon_inj back⟩

theorem captions_and_details {a b : Node} (h : a.heading = b.heading) :
    a.kind.caption a.isEdgeSensitive = b.kind.caption b.isEdgeSensitive ∧
      a.detail? = b.detail? := by
  rw [heading_eq, heading_eq] at h
  have plain (kind : Kind) (edge : Bool) : ':' ∉ (kind.caption edge).toList :=
    Kind.notMem_caption (by decide) (by decide) kind edge
  exact labelled_inj (plain _ _) (plain _ _) h

def closing (line : Option UInt64) : List Char :=
  line.elim [] fun line => " (end line ".toList ++ (Nat.toDigits 10 line.toNat ++ [')'])

theorem head_closing (line : Option UInt64) : ∀ c ∈ (closing line).head?, c = ' ' := by
  cases line <;> simp [closing]

theorem closing_inj (h : closing line = closing line') : line = line' := by
  cases line with
  | none => cases line' <;> simp_all [closing]
  | some line =>
    cases line' with
    | none => simp [closing] at h
    | some line' =>
      have digits := List.append_cancel_right (List.append_cancel_left h)
      rw [UInt64.toNat_inj.mp (toDigits_inj digits)]

theorem detail_foldedIf (op : BinaryOp) (l r t : Node) (e : Option Node) (form : IfForm)
    (p : Option Position) :
    (foldedIf op l r t e form p).detail? =
      some (String.ofList (op.symbol.toList ++ closing form.endLine)) := by
  obtain ⟨edge, line⟩ := form
  cases line <;> simp [detail?, closing, String.ext_iff, Nat.toList_repr]

theorem foldedIf_of_detail
    (h : (foldedIf op l r t e form p).detail? = (foldedIf op' l' r' t' e' form' p').detail?) :
    op = op' ∧ form.endLine = form'.endLine := by
  rw [detail_foldedIf, detail_foldedIf] at h
  obtain ⟨symbols, lines⟩ := cut_unique op.blank_notMem_symbol op'.blank_notMem_symbol
    (head_closing _) (head_closing _) (String.ofList_injective (Option.some.inj h))
  exact ⟨BinaryOp.symbol_inj (String.toList_inj.mp symbols), closing_inj lines⟩

theorem detail_element (access : Access) (array : ArrayRef) (i : Node) (p : Option Position) :
    (element access array i p).detail? =
      some (String.ofList ((array.name.toList ++ " (addr".toList) ++
        ' ' :: Nat.toDigits 10 array.address.toNat ++ ", size".toList ++
        ' ' :: (Nat.toDigits 10 array.size.toNat ++ [')']))) := by
  simp [detail?, String.ext_iff, Nat.toList_repr]

/-- A name may hold anything, so the line of an element is read from its end. -/
theorem array_of_detail
    (h : (element access array i p).detail? = (element access' array' i' p').detail?) :
    array = array' := by
  have digits (n : Nat) : ' ' ∉ Nat.toDigits 10 n := notMem_toDigits (by decide) n
  rw [detail_element, detail_element] at h
  have text := String.ofList_injective (Option.some.inj h)
  obtain ⟨front, sizes⟩ := last_cut_unique (by simp [digits]) (by simp [digits]) text
  obtain ⟨names, addresses⟩ :=
    last_cut_unique (digits _) (digits _) (List.append_cancel_right front)
  have name := String.toList_inj.mp (List.append_cancel_right names)
  have address := UInt64.toNat_inj.mp (toDigits_inj addresses)
  have size := UInt64.toNat_inj.mp (toDigits_inj (List.append_cancel_right sizes))
  cases array
  cases array'
  simp_all

theorem bareSlot_of_toList {s s' : Option Node}
    (h : s.toList.map bare = s'.toList.map bare) : bareSlot s = bareSlot s' := by
  cases s <;> cases s' <;> simp_all [bareSlot]

theorem bare_build (kind : Kind) (v w : Values kind.fields)
    (h : (kind.build v).heading = (kind.build w).heading)
    (parts : (kind.build v).children.map bare = (kind.build w).children.map bare) :
    (kind.build v).bare = (kind.build w).bare := by
  obtain ⟨captions, details⟩ := captions_and_details h
  cases kind with
  | block =>
    exact congrArg (block · none) ((bareAll_eq _).trans (parts.trans (bareAll_eq _).symm))
  | assignment | whileLoop =>
    obtain ⟨x, y, ⟨⟩⟩ := v
    obtain ⟨x', y', ⟨⟩⟩ := w
    simp_all [Kind.build, children, bare]
  | ifWhen =>
    obtain ⟨c, t, e, edge, line, ⟨⟩⟩ := v
    obtain ⟨c', t', e', edge', line', ⟨⟩⟩ := w
    cases Kind.edge_of_caption (.inl rfl) captions
    obtain ⟨conditions, branches⟩ := List.cons.inj parts
    obtain ⟨onTrue, onFalse⟩ := List.cons.inj branches
    simp only [Kind.build, bare, conditions, onTrue, bareSlot_of_toList onFalse]
  | foldedIfWhen =>
    obtain ⟨op, l, r, t, e, edge, line, ⟨⟩⟩ := v
    obtain ⟨op', l', r', t', e', edge', line', ⟨⟩⟩ := w
    cases Kind.edge_of_caption (.inr rfl) captions
    obtain ⟨rfl, lines⟩ := foldedIf_of_detail details
    obtain rfl : line = line' := lines
    obtain ⟨left, others⟩ := List.cons.inj parts
    obtain ⟨right, branches⟩ := List.cons.inj others
    obtain ⟨onTrue, onFalse⟩ := List.cons.inj branches
    simp only [Kind.build, bare, left, right, onTrue, bareSlot_of_toList onFalse]
  | emit | callSub | call =>
    obtain ⟨id, args, ⟨⟩⟩ := v
    obtain ⟨id', args', ⟨⟩⟩ := w
    cases eq_of_toString_word (Option.some.inj details)
    simp only [Kind.build, bare, bareAll_eq, show args.map bare = args'.map bare from parts]
  | eventDecl | subDecl =>
    obtain ⟨id, ⟨⟩⟩ := v
    obtain ⟨id', ⟨⟩⟩ := w
    cases eq_of_toString_word (Option.some.inj details)
    rfl
  | immediate =>
    obtain ⟨value, ⟨⟩⟩ := v
    obtain ⟨value', ⟨⟩⟩ := w
    cases Int16.toInt_inj.mp (eq_of_toString_int (Option.some.inj details))
    rfl
  | load | store =>
    obtain ⟨address, ⟨⟩⟩ := v
    obtain ⟨address', ⟨⟩⟩ := w
    cases eq_of_toString_word ((String.append_right_inj _).mp (Option.some.inj details))
    rfl
  | binary | foldedWhile =>
    obtain ⟨op, parts⟩ := v
    obtain ⟨op', parts'⟩ := w
    cases BinaryOp.symbol_inj (Option.some.inj details)
    simp_all [Kind.build, children, bare]
  | unary =>
    obtain ⟨op, operand, ⟨⟩⟩ := v
    obtain ⟨op', operand', ⟨⟩⟩ := w
    cases UnaryOp.symbol_inj (Option.some.inj details)
    simp_all [Kind.build, children, bare]
  | arrayRead | arrayWrite =>
    obtain ⟨address, size, name, i, ⟨⟩⟩ := v
    obtain ⟨address', size', name', i', ⟨⟩⟩ := w
    cases array_of_detail details
    simp_all [Kind.build, children, bare]

theorem bare_of_heading {a b : Node} (h : a.heading = b.heading)
    (parts : a.children.map bare = b.children.map bare) : a.bare = b.bare := by
  have kinds : a.kind = b.kind := Kind.caption_inj (captions_and_details h).1
  obtain ⟨v, hv⟩ := a.exists_build
  obtain ⟨w, hw⟩ := b.exists_build
  rw [← heading_withPosition a none, ← heading_withPosition b none, hv, hw] at h
  rw [← children_withPosition a none, ← children_withPosition b none, hv, hw] at parts
  rw [← bare_withPosition a none, ← bare_withPosition b none, hv, hw]
  generalize a.kind = kind at *
  subst kinds
  exact bare_build _ v w h parts

/-! ### The lines of a tree -/

/-- The characters of the lines of a tree. -/
def rows (depth : Nat) (n : Node) : List Char := (n.outlineFrom depth).toList

theorem toList_outlineAll (depth : Nat) (ns : List Node) :
    (outlineAll depth ns).toList = ns.flatMap (rows depth) := by
  induction ns with
  | nil => rw [outlineAll]; rfl
  | cons n rest ih => rw [outlineAll, String.toList_append, ih, List.flatMap_cons, rows]

theorem rows_eq (depth : Nat) (n : Node) :
    n.rows depth = List.replicate (2 * depth) ' ' ++
      (n.heading.toList ++ '\n' :: n.children.flatMap (rows (depth + 1))) := by
  have first : (n.headingLine depth).toList =
      List.replicate (2 * depth) ' ' ++ (n.heading.toList ++ ['\n']) := by
    simp [headingLine]
  rw [rows, outlineFrom.eq_def, String.toList_append, first]
  cases n with
  | ifWhen c t e form p => cases e <;> simp [rows, children]
  | foldedIf op l r t e form p => cases e <;> simp [rows, children]
  | _ => simp [rows, children, toList_outlineAll]

/-! ### What is lost -/

theorem children_bare (n : Node) : n.bare.children = n.children.map bare := by
  cases n with
  | ifWhen c t e form p => cases e <;> rfl
  | foldedIf op l r t e form p => cases e <;> rfl
  | block ss p => exact bareAll_eq ss
  | invoke callee args p => exact bareAll_eq args
  | _ => rfl

theorem heading_bare (n : Node) : n.bare.heading = n.heading := by
  cases n with
  | declare entity p => cases entity <;> rfl
  | invoke callee args p => cases callee <;> rfl
  | cell access address p => cases access <;> rfl
  | _ => rfl

theorem rows_bare (n : Node) : ∀ depth, n.bare.rows depth = n.rows depth := by
  induction n using children_induction with
  | step n ih =>
    intro depth
    have parts : (n.children.map bare).flatMap (rows (depth + 1)) =
        n.children.flatMap (rows (depth + 1)) := by
      rw [List.flatMap_map]
      exact List.flatMap_congr fun c hc => ih c hc (depth + 1)
    rw [rows_eq, rows_eq, heading_bare, children_bare, parts]

/-! ### Reading the lines back -/

theorem feed_notMem_detail {n : Node} (names : n.PlainNames) : '\n' ∉ fromColon n.detail? := by
  have digits (n : Nat) : '\n' ∉ Nat.toDigits 10 n := notMem_toDigits (by decide) n
  have symbols (op : BinaryOp) : '\n' ∉ op.symbol.toList := by cases op <;> decide
  have signs (op : UnaryOp) : '\n' ∉ op.symbol.toList := by cases op <;> decide
  cases n with
  | foldedIf op l r t e form p =>
    rw [detail_foldedIf]
    cases form.endLine <;> simp [fromColon, closing, symbols, digits]
  | declare entity p => cases entity <;> simp [detail?, fromColon, Nat.toList_repr, digits]
  | invoke callee args p => cases callee <;> simp [detail?, fromColon, Nat.toList_repr, digits]
  | immediate value p =>
    simp only [detail?, fromColon, toList_toString_int]
    cases value.toInt <;> simp [Json.chars_number_natCast, Json.chars_number_negSucc, digits]
  | cell access address p => simp [detail?, fromColon, Nat.toList_repr, digits]
  | element access array i p =>
    have name := names access array i p ⟨[], rfl⟩
    rw [detail_element]
    simp [fromColon, digits, name]
  | _ => simp [detail?, fromColon, symbols, signs]

theorem feed_notMem_heading {n : Node} (names : n.PlainNames) : '\n' ∉ n.heading.toList := by
  rw [heading_eq, toList_labelled, List.mem_append, not_or]
  exact ⟨Kind.notMem_caption (by decide) (by decide) _ _, feed_notMem_detail names⟩

theorem exists_heading_cons (n : Node) : ∃ c text, n.heading.toList = c :: text ∧ c ≠ ' ' := by
  obtain ⟨c, text, h, letter, -⟩ := n.kind.caption_eq_cons n.isEdgeSensitive
  rw [heading_eq, toList_labelled, h]
  refine ⟨c, _, rfl, ?_⟩
  rintro rfl
  cases letter

/-- The text does not go on with a line as deep as this. -/
def Shallow (depth : Nat) (rest : List Char) : Prop :=
  ¬ List.replicate (2 * depth) ' ' <+: rest

theorem Shallow.deeper {depth : Nat} (h : Shallow depth rest) : Shallow (depth + 1) rest := by
  intro deep
  rw [Nat.mul_succ, ← List.replicate_append_replicate] at deep
  exact h ((List.prefix_append _ _).trans deep)

theorem shallow_rows (depth : Nat) (n : Node) (rest : List Char) :
    Shallow (depth + 1) (n.rows depth ++ rest) := by
  obtain ⟨c, text, hc, nonblank⟩ := n.exists_heading_cons
  intro deep
  rw [rows_eq, hc, Nat.mul_succ, ← List.replicate_append_replicate, List.append_assoc,
    List.prefix_append_right_inj] at deep
  exact nonblank (List.cons_prefix_cons.mp deep).1.symm

theorem not_shallow_rows (depth : Nat) (n : Node) (rest : List Char) :
    ¬ Shallow depth (n.rows depth ++ rest) := by
  rw [rows_eq, List.append_assoc]
  exact not_not_intro (List.prefix_append _ _)

theorem Shallow.after {depth : Nat} (h : Shallow depth rest) (ns : List Node) :
    Shallow (depth + 1) (ns.flatMap (rows depth) ++ rest) := by
  cases ns with
  | nil => exact h.deeper
  | cons n ns =>
    rw [List.flatMap_cons, List.append_assoc]
    exact shallow_rows depth n _

/-- The lines of the node stand for no other node, whatever shallower line follows. -/
def Legible (a : Node) : Prop :=
  ∀ (b : Node) depth rest rest', b.PlainNames →
    Shallow (depth + 1) rest → Shallow (depth + 1) rest' →
    a.rows depth ++ rest = b.rows depth ++ rest' → a.bare = b.bare ∧ rest = rest'

theorem bare_of_allRows {as : List Node} (each : ∀ a ∈ as, a.Legible) {bs : List Node}
    (names : ∀ b ∈ bs, b.PlainNames) {depth : Nat} (hr : Shallow depth rest)
    (hr' : Shallow depth rest')
    (h : as.flatMap (rows depth) ++ rest = bs.flatMap (rows depth) ++ rest') :
    as.map bare = bs.map bare ∧ rest = rest' := by
  induction as generalizing bs with
  | nil =>
    cases bs with
    | nil => exact ⟨rfl, h⟩
    | cons b bs =>
      rw [List.flatMap_nil, List.nil_append, List.flatMap_cons, List.append_assoc] at h
      exact absurd (h ▸ hr) (not_shallow_rows depth b _)
  | cons a as ih =>
    cases bs with
    | nil =>
      rw [List.flatMap_nil, List.nil_append, List.flatMap_cons, List.append_assoc] at h
      exact absurd (h ▸ hr') (not_shallow_rows depth a _)
    | cons b bs =>
      rw [List.forall_mem_cons] at each names
      rw [List.flatMap_cons, List.flatMap_cons, List.append_assoc, List.append_assoc] at h
      obtain ⟨first, h⟩ := each.1 b depth _ _ names.1 (hr.after as) (hr'.after bs) h
      obtain ⟨others, rests⟩ := ih each.2 names.2 h
      exact ⟨by rw [List.map_cons, List.map_cons, first, others], rests⟩

theorem PlainNames.legible {a : Node} (names : a.PlainNames) : a.Legible := by
  induction a using children_induction with
  | step a ih =>
    intro b depth rest rest' names' hr hr' h
    rw [rows_eq, rows_eq] at h
    simp only [List.append_assoc, List.cons_append] at h
    obtain ⟨headings, below⟩ := cut_unique (feed_notMem_heading names)
      (feed_notMem_heading names') (by simp) (by simp) (List.append_cancel_left h)
    obtain ⟨parts, rests⟩ := bare_of_allRows (fun c hc => ih c hc (names.child hc))
      (fun c hc => names'.child hc) hr hr' (List.cons.inj below).2
    exact ⟨bare_of_heading (String.toList_inj.mp headings) parts, rests⟩

/-- Two trees without line feeds in their names have one outline exactly if they differ in
positions and in the last lines of unfused conditionals alone. -/
theorem outline_eq_iff_bare_eq {a b : Node} (ha : a.PlainNames) (hb : b.PlainNames) :
    a.outline = b.outline ↔ a.bare = b.bare := by
  have ended : Shallow 1 [] := by simp [Shallow]
  constructor
  · intro h
    have chars : a.rows 0 ++ [] = b.rows 0 ++ [] := congrArg (String.toList · ++ []) h
    exact (ha.legible b 0 [] [] hb ended ended chars).1
  · intro h
    have chars : a.rows 0 = b.rows 0 := by rw [← rows_bare a, h, rows_bare b]
    exact String.toList_inj.mp chars

def lookalike (line : Option UInt64) (p : Option Position) : Node :=
  ifWhen (element .read ⟨3, 4, "x (addr 1, size 2)"⟩ (immediate (-1) p) p) (block [] p) none
    ⟨true, line⟩ p

theorem plainNames_lookalike (line : Option UInt64) (p : Option Position) :
    (lookalike line p).PlainNames := by
  have leaf : (immediate (-1) p).PlainNames := .of_parts (by simp) (by simp [children])
  have array : (element .read ⟨3, 4, "x (addr 1, size 2)"⟩ (immediate (-1) p) p).PlainNames :=
    .of_parts (fun _ _ _ _ same => by cases same; decide) (by simpa [children] using leaf)
  have body : (block [] p).PlainNames := .of_parts (by simp) (by simp [children])
  exact .of_parts (by simp [lookalike]) (by simpa [lookalike, children] using ⟨array, body⟩)

theorem lookalike_outline :
    (lookalike none none).PlainNames ∧ (lookalike (some 9) (some ⟨5, 1⟩)).PlainNames ∧
      (lookalike none none).outline = (lookalike (some 9) (some ⟨5, 1⟩)).outline :=
  have plain := plainNames_lookalike
  ⟨plain _ _, plain _ _, (outline_eq_iff_bare_eq (plain _ _) (plain _ _)).mpr rfl⟩

end Node

end EventScript
