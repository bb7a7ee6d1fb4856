import EventScript.Node.Encode
import EventScript.Node.Equality
import EventScript.Proofs.Limit
import EventScript.Proofs.Record
import EventScript.Proofs.Session

/-! A tree is read back from its own text, as far as the limit on brackets allows. Every shape of
value has its reader; what is proved of one, given what may be read inside a bracket, is put
together along the limit. What the optimizer leaves of a tree that was read stays readable. -/
namespace EventScript
open Json

def Json.inside : Json → Json
  | object ((_, value) :: _) => value
  | other => other

namespace Shape

def json : (shape : Shape) → shape.Value → Json
  | word, n => wordJson n
  | int16, v => number v.toInt
  | flag, b => bool b
  | text, s => string s
  | binaryOp, op => string op.name
  | unaryOp, op => string op.name
  | maybeWord, slot => optionJson wordJson slot
  | position, p => p.toJson
  | maybePosition, slot => optionJson Position.toJson slot
  | node, n => n.toJson
  | maybeNode, slot => Node.slotToJson slot
  | nodes, ns => array (Node.allToJson ns)
  | body, n => n.toJson.inside
  | payload _, n => n.toJson.inside.inside

/-- Bodies and payloads are nodes as their kind builds them, without a position. -/
def Built : (shape : Shape) → shape.Value → Prop
  | body, n => ∃ (kind : Kind) (values : Values kind.fields), n = kind.build values
  | payload kind, n => ∃ values : Values kind.fields, n = kind.build values
  | _, _ => True

end Shape

def Member.json (m : Member) : Json := m.1.shape.json m.2

theorem Kind.json_payload (kind : Kind) (values : Values kind.fields) :
    (Shape.payload kind).json (kind.build values) =
      object (layoutOf Member.json (Values.members kind.fields values)) := by
  cases kind <;> rfl

theorem Kind.json_body (kind : Kind) (values : Values kind.fields) :
    Shape.body.json (kind.build values) =
      object [(kind.name, (Shape.payload kind).json (kind.build values))] := by
  cases kind <;> rfl

theorem Position.toJson_eq (p : Position) :
    p.toJson = object (layoutOf Member.json
      (Values.members Record.position.fields (p.line, p.column, ()))) := rfl

namespace Node

theorem toJson_eq (n : Node) :
    n.toJson = object (layoutOf Member.json
      (Values.members Record.node.fields (n.withPosition none, n.position, ()))) := by
  cases n with
  | declare entity p => cases entity <;> rfl
  | invoke callee args p => cases callee <;> rfl
  | cell access address p => cases access <;> rfl
  | _ => rfl

theorem allToJson_eq (ns : List Node) : allToJson ns = ns.map toJson := by
  induction ns with
  | nil => rfl
  | cons n rest ih => rw [allToJson, ih, List.map_cons]

theorem withPosition_position (n : Node) : (n.withPosition none).withPosition n.position = n := by
  cases n <;> rfl

/-- A node without its position is built from the values of its fields. -/
theorem exists_build (n : Node) :
    ∃ values : Values n.kind.fields, n.withPosition none = n.kind.build values := by
  cases n with
  | block ss p => exact ⟨(ss, ()), rfl⟩
  | assign target value p => exact ⟨(target, value, ()), rfl⟩
  | ifWhen c t e form p => exact ⟨(c, t, e, form.edgeSensitive, form.endLine, ()), rfl⟩
  | foldedIf op l r t e form p =>
    exact ⟨(op, l, r, t, e, form.edgeSensitive, form.endLine, ()), rfl⟩
  | whileLoop c b p => exact ⟨(c, b, ()), rfl⟩
  | foldedWhile op l r b p => exact ⟨(op, l, r, b, ()), rfl⟩
  | declare entity p => cases entity with
    | event id => exact ⟨(id, ()), rfl⟩
    | sub id => exact ⟨(id, ()), rfl⟩
  | invoke callee args p => cases callee with
    | event id => exact ⟨(id, args, ()), rfl⟩
    | sub id => exact ⟨(id, args, ()), rfl⟩
    | function id => exact ⟨(id, args, ()), rfl⟩
  | binary op l r p => exact ⟨(op, l, r, ()), rfl⟩
  | unary op n p => exact ⟨(op, n, ()), rfl⟩
  | immediate v p => exact ⟨(v, ()), rfl⟩
  | cell access address p => cases access with
    | read => exact ⟨(address, ()), rfl⟩
    | write => exact ⟨(address, ()), rfl⟩
  | element access array i p => cases access with
    | read => exact ⟨(array.address, array.size, array.name, i, ()), rfl⟩
    | write => exact ⟨(array.address, array.size, array.name, i, ()), rfl⟩

end Node

theorem Kind.ofName?_name (kind : Kind) : Kind.ofName? kind.name = some kind := by
  cases kind <;> decide

theorem BinaryOp.ofName?_name (op : BinaryOp) : BinaryOp.ofName? op.name = some op := by
  cases op <;> decide

theorem UnaryOp.ofName?_name (op : UnaryOp) : UnaryOp.ofName? op.name = some op := by
  cases op <;> decide

theorem Kind.distinct_names (kind : Kind) : (kind.fields.map Field.name).Nodup := by
  cases kind <;> decide

theorem Kind.built_members (kind : Kind) (values : Values kind.fields) :
    ∀ m ∈ Values.members kind.fields values, m.1.shape.Built m.2 := by
  cases kind <;> simp [Values.members, Shape.Built]

/-! ### Readers one by one -/

namespace Json

theorem reads_of_gives {read : Reader α} (flat : json.nesting = 0)
    (h : ∀ indent, Gives read (json.chars indent) (.ok a)) : Reads steps limit read json a := by
  intro indent _
  rw [flat, within_zero]
  exact h indent

theorem readInteger_blanks {before : List Char} (blank : ∀ c ∈ before, isBlank c = true)
    (expected : String) (least greatest : Int) (s : List Char) :
    readInteger expected least greatest (before ++ s) =
      readInteger expected least greatest s := by
  simp only [readInteger, dropBlanks_append blank]

theorem gives_readInteger {n least greatest : Int} (range : least ≤ n ∧ n ≤ greatest)
    (fits : -signBit ≤ n ∧ n < UInt64.size) (expected : String) (indent : Nat) :
    Gives (readInteger expected least greatest) ((number n).chars indent) (.ok n) := by
  intro before rest blank hrest
  rw [readInteger_blanks blank]
  cases n with
  | ofNat n =>
    rw [show Int.ofNat n = n from rfl, chars_number_natCast] at *
    exact causes_eq_ok.mpr (readInteger_positive (by omega) range expected hrest)
  | negSucc n =>
    rw [chars_number_negSucc, Int.negSucc_eq] at *
    exact causes_eq_ok.mpr
      (readInteger_negative (Nat.succ_pos n) (by omega) range expected hrest)

theorem reads_word (n : UInt64) : Reads steps limit readWord (wordJson n) n := by
  refine reads_of_gives rfl fun indent before rest blank hrest => ?_
  have small : n.toNat < UInt64.size := n.toNat_lt
  have range : 0 ≤ (n.toNat : Int) ∧ (n.toNat : Int) ≤ UInt64.size - 1 := by omega
  rw [readWord, wordJson, causes_bind,
    gives_readInteger range (by omega) _ indent before rest blank hrest]
  simp [Except.map, pure, Except.pure]

theorem reads_int16 (v : Int16) : Reads steps limit readInt16 (number v.toInt) v := by
  refine reads_of_gives rfl fun indent before rest blank hrest => ?_
  have range := And.intro v.minValue_le_toInt v.toInt_le
  have fits : -signBit ≤ v.toInt ∧ v.toInt < UInt64.size := by
    have least := v.le_toInt
    have greatest := v.toInt_lt
    simp only [signBit, UInt64.size]
    omega
  rw [readInt16, causes_bind, gives_readInteger range fits _ indent before rest blank hrest]
  simp [Except.map, pure, Except.pure]

theorem reads_bool (b : Bool) : Reads steps limit readBool (bool b) b := by
  refine reads_of_gives rfl fun indent before rest blank hrest => ?_
  rw [readBool, dropBlanks_append blank]
  cases b with
  | true => rw [chars_true]; rfl
  | false => rw [chars_false]; rfl

theorem reads_string (s : String) : Reads steps limit readString (string s) s := by
  refine reads_of_gives rfl fun indent before rest blank hrest => ?_
  rw [readString, dropBlanks_append blank, chars_string]
  simp [keyChars, dropBlanks_cons, isBlank, scanString_stringText, Except.map]

theorem reads_operator {ofName? : String → Option ν} (h : ofName? name = some op) :
    Reads steps limit (readOperator ofName? names open?) (string name) op := by
  refine reads_of_gives rfl fun indent => ?_
  rw [chars_string]
  exact gives_variant_name h fun _ => rfl

theorem reads_none {read : Reader α} : Reads steps limit (readOptional read) null none := by
  refine reads_of_gives rfl fun indent before rest blank hrest => ?_
  rw [readOptional, dropBlanks_append blank, chars_null]
  rfl

theorem chars_array_head (items : List Json) (indent : Nat) :
    ∃ s, (array items).chars indent = '[' :: s := by
  cases items with
  | nil => exact ⟨_, chars_array_nil⟩
  | cons item items => exact ⟨_, chars_array_cons⟩

theorem chars_object_head (members : List (String × Json)) (indent : Nat) :
    ∃ s, (object members).chars indent = '\x7b' :: s := by
  cases members with
  | nil => exact ⟨_, chars_object_nil⟩
  | cons member members => exact ⟨_, chars_object_cons⟩

def NotNull (json : Json) : Prop :=
  ∀ indent, ∃ c s, json.chars indent = c :: s ∧ isBlank c = false ∧ c ≠ 'n'

theorem notNull_word (n : UInt64) : NotNull (wordJson n) := by
  intro indent
  obtain ⟨c, digits, hn, digit⟩ := toDigits_head n.toNat
  refine ⟨c, digits, (chars_number_natCast _).trans hn, (isDigit_plain digit).1, ?_⟩
  rintro rfl
  cases digit

theorem notNull_object (members : List (String × Json)) : NotNull (object members) := by
  intro indent
  obtain ⟨s, hs⟩ := chars_object_head members indent
  exact ⟨_, s, hs, by decide⟩

theorem Reads.some {read : Reader α} (h : Reads steps limit read json a) (other : json.NotNull) :
    Reads steps limit (readOptional read) json (some a) := by
  intro indent short before rest blank hrest
  obtain ⟨c, s, hc, plain, other⟩ := other indent
  have value := (h indent short).here hrest
  rw [readOptional, dropBlanks_append blank]
  rw [hc, List.cons_append] at value ⊢
  rw [dropBlanks_cons plain]
  split
  · simp_all
  · rw [causes_map, value, within_map, within_map]

theorem Reads.map {read : Reader α} {f : α × List Char → β × List Char}
    (h : Reads steps limit read json a) (hf : ∀ rest, f (a, rest) = (b, rest)) :
    Reads steps limit (fun s => (read s).map f) json b := by
  intro indent short before rest blank hrest
  dsimp only
  rw [causes_map, h indent short before rest blank hrest, within_map, within_map, within_map, hf]

/-- Where no bracket may be opened, a text that starts with one is refused. -/
theorem reads_closed {read : Reader α} (plain : isBlank c = false)
    (head : ∀ indent, ∃ s, json.chars indent = c :: s) (deep : 0 < json.nesting)
    (refuse : ∀ s rest, dropBlanks s = c :: rest → causes (read s) = .error .recursionLimit) :
    Reads steps 0 read json a := by
  intro indent _ before rest blank _
  obtain ⟨s, hs⟩ := head indent
  rw [within, if_neg (by omega), refuse _ (s ++ rest)]
  · rfl
  · rw [dropBlanks_append blank, hs, List.cons_append, dropBlanks_cons plain]

end Json

/-! ### Shapes inside brackets -/

/-- What may be read inside a bracket: nothing where the limit is reached, else every value whose
text keeps within one bracket less. -/
inductive Inner (steps : Nat) : Nat → Option ((shape : Shape) → Reader shape.Value) → Prop where
  | closed : Inner steps 0 none
  | opened {inner : (shape : Shape) → Reader shape.Value} :
      (∀ shape value, shape.Built value →
        Reads steps limit (inner shape) (shape.json value) value) →
      Inner steps (limit + 1) (some inner)

namespace Inner

theorem list (h : Inner steps limit inner?) (ns : List Node) :
    Reads steps limit (readList steps (inner?.map fun inner => inner .node))
      (array (ns.map Node.toJson)) ns := by
  cases h with
  | closed =>
    refine reads_closed rfl (chars_array_head _) (Nat.succ_pos _) fun s rest hs => ?_
    rw [Option.map_none, readList, hs]
    rfl
  | opened h => exact .list fun n _ => h .node n trivial

theorem record {record : Record} {values : Values record.fields} (h : Inner steps limit inner?)
    (distinct : (record.fields.map Field.name).Nodup)
    (built : ∀ m ∈ Values.members record.fields values, m.1.shape.Built m.2) :
    Reads steps limit (readRecord steps record inner?)
      (object (layoutOf Member.json (Values.members record.fields values))) values := by
  cases h with
  | closed =>
    refine reads_closed rfl (chars_object_head _) (Nat.succ_pos _) fun s rest hs => ?_
    rw [readRecord, hs]
    rfl
  | opened h => exact .record distinct fun m hm => h m.1.shape m.2 (built m hm)

theorem body (h : Inner steps limit inner?) (kind : Kind) (values : Values kind.fields) :
    Reads steps limit (Shape.readWith steps inner? .body) (Shape.body.json (kind.build values))
      (kind.build values) := by
  rw [kind.json_body, Shape.readWith]
  cases h with
  | closed =>
    refine reads_closed rfl (chars_object_head _) (Nat.succ_pos _) fun s rest hs => ?_
    rw [Option.map_none, readVariant, hs]
    rfl
  | opened h => exact .variant kind.ofName?_name (h (.payload kind) _ ⟨values, rfl⟩)

theorem payload (h : Inner steps limit inner?) (kind : Kind) (values : Values kind.fields) :
    Reads steps limit (Shape.readWith steps inner? (.payload kind))
      ((Shape.payload kind).json (kind.build values)) (kind.build values) := by
  have fields : Reads steps limit (readRecord steps kind.record inner?) _ values :=
    h.record kind.distinct_names (kind.built_members values)
  rw [kind.json_payload, Shape.readWith]
  exact fields.map fun _ => rfl

theorem position (h : Inner steps limit inner?) (p : Position) :
    Reads steps limit (Shape.readWith.readPosition steps inner?) p.toJson p := by
  have fields : Reads steps limit (readRecord steps Record.position inner?) _
      (p.line, p.column, ()) :=
    h.record (by decide) (by simp [Values.members, Shape.Built])
  exact fields.map fun _ => rfl

theorem node (h : Inner steps limit inner?) (n : Node) :
    Reads steps limit (Shape.readWith.readNode steps inner?) n.toJson n := by
  have built : Shape.body.Built (n.withPosition none) := ⟨n.kind, n.exists_build⟩
  have fields : Reads steps limit (readRecord steps Record.node inner?) _
      (n.withPosition none, n.position, ()) :=
    h.record (by decide) (List.forall_mem_cons.mpr ⟨built, by simp [Values.members, Shape.Built]⟩)
  rw [n.toJson_eq]
  exact fields.map fun rest => congrArg (·, rest) n.withPosition_position

/-- Every shape is read back, as far as the brackets that may be opened allow. -/
theorem reads (h : Inner steps limit inner?) (shape : Shape) (value : shape.Value)
    (built : shape.Built value) :
    Reads steps limit (shape.readWith steps inner?) (shape.json value) value := by
  cases shape with
  | word => exact reads_word value
  | int16 => exact reads_int16 value
  | flag => exact reads_bool value
  | text => exact reads_string value
  | binaryOp => exact reads_operator value.ofName?_name
  | unaryOp => exact reads_operator value.ofName?_name
  | maybeWord =>
    cases value with
    | none => exact reads_none
    | some n => exact (reads_word n).some (notNull_word n)
  | position => exact h.position value
  | maybePosition =>
    cases value with
    | none => exact reads_none
    | some p => exact (h.position p).some (notNull_object _)
  | node => exact h.node value
  | maybeNode =>
    cases value with
    | none => exact reads_none
    | some n => exact (h.node n).some (n.toJson_eq ▸ notNull_object _)
  | nodes =>
    rw [Shape.json, Node.allToJson_eq]
    exact h.list value
  | body =>
    obtain ⟨kind, values, rfl⟩ := built
    exact h.body kind values
  | payload kind =>
    obtain ⟨values, rfl⟩ := built
    exact h.payload kind values

end Inner

namespace Shape

theorem reads_within (limit : Nat) (shape : Shape) (value : shape.Value)
    (built : shape.Built value) :
    Reads steps limit (shape.readWithin steps limit) (shape.json value) value := by
  induction limit generalizing shape with
  | zero => exact Inner.closed.reads shape value built
  | succ limit ih => exact (Inner.opened ih).reads shape value built

end Shape

namespace Node

theorem mapError_readText (read : (steps : Nat) → Reader α) (text : String) :
    (readText read text).mapError ReadError.cause = causes (readWhole read text.toList) := by
  rw [readText]
  cases readWhole read text.toList <;> rfl

/-- A tree is read back from its text as far as the limit on brackets allows. -/
theorem ofText_toText (n : Node) :
    (ofText n.toText).mapError ReadError.cause = within depthLimit n.depth n := by
  have text : n.toText.toList = n.toJson.chars 0 := by rw [toText, text_eq, chars]
  have reads : Reads (n.toText.toList.length + 1) depthLimit _ n.toJson n :=
    Shape.reads_within depthLimit .node n trivial
  have short : (n.toJson.chars 0).length < n.toText.toList.length + 1 := by
    rw [text]
    exact Nat.lt_succ_self _
  have whole := (reads 0 short).here (show Delimits [] from trivial)
  rw [← text, List.append_nil, nesting_toJson] at whole
  rw [ofText, mapError_readText, readWhole, causes_bind, whole]
  exact within_last rfl

theorem ofText_toText_of_shallow (h : n.depth ≤ depthLimit) : ofText n.toText = .ok n := by
  have read := ofText_toText n
  rw [within, if_pos h] at read
  exact mapError_eq_ok.mp read

/-- A tree is read back from its own text if the text nests at most 127 brackets; a deeper one is
refused for this reason and no other. -/
theorem toText_round_trip (n : Node) :
    (n.depth ≤ 127 → ofText n.toText = .ok n) ∧
    (127 < n.depth → ∃ e, ofText n.toText = .error e ∧ e.message = "recursion limit exceeded") := by
  refine ⟨ofText_toText_of_shallow, fun deep => ?_⟩
  have read := ofText_toText n
  rw [within, if_neg (show ¬ n.depth ≤ depthLimit from Nat.not_le_of_lt deep)] at read
  cases h : ofText n.toText with
  | ok n' =>
    rw [h] at read
    cases read
  | error e =>
    rw [h] at read
    exact ⟨e, rfl, congrArg DecodeError.message (Except.error.inj read)⟩

def signed : Nat → Node
  | 0 => immediate 1 none
  | count + 1 => unary .neg (signed count) none

theorem signed_round_trip :
    (block [signed 40] none).depth = 127 ∧
      ofText (block [signed 40] none).toText = .ok (block [signed 40] none) ∧
      (block [signed 41] none).depth = 130 ∧
      ∃ e, ofText (block [signed 41] none).toText = .error e ∧
        e.message = "recursion limit exceeded" :=
  ⟨rfl, (toText_round_trip _).1 (by decide), rfl, (toText_round_trip _).2 (by decide)⟩

/-- Whatever text a tree was read from, it is read back from its own text; so is what the optimizer
leaves of it, whose JSON nests no deeper. -/
theorem toText_read_back {text : String} {t : Node} (h : ofText text = .ok t) :
    ofText t.toText = .ok t ∧
    ∀ tracing program r, (t.optimizeProgram tracing).outcome = .ok program →
      program.root = some r →
      ofText r.toText = .ok r ∧ r.toJson.nesting ≤ t.toJson.nesting ∧ r.toJson.nesting ≤ 127 := by
  have shallow : t.depth ≤ depthLimit := depth_of_ofText h
  refine ⟨ofText_toText_of_shallow shallow, ?_⟩
  intro tracing program r hp hr
  have left : t.optimize.outcome = .ok (some r) := hr ▸ optimize_of_optimizeProgram hp
  have lower : r.depth ≤ t.depth := (reduction_of_outcome left).depth_le
  have limit : r.depth ≤ depthLimit := Nat.le_trans lower shallow
  rw [nesting_toJson, nesting_toJson]
  exact ⟨ofText_toText_of_shallow limit, lower, limit⟩

def oddText : String :=
  "[\x7b\"Assignment\": \x7b\"value\": [\x7b\"BinaryArithmetic\": [\"Mul\"," ++
    "[\x7b\"Load\": [3]\x7d], [\x7b\"Immediate\": [8]\x7d]]\x7d]," ++
    "\"note\": [1e3], \"target\": [\x7b\"Store\": [7]\x7d]\x7d\x7d]"

def oddTree (op : BinaryOp) (operand : Int16) : Node :=
  assign (cell .write 7 none) (binary op (cell .read 3 none) (immediate operand none) none) none

theorem oddText_read_back :
    ofText oddText = .ok (oddTree .mul 8) ∧
      ofText (oddTree .mul 8).toText = .ok (oddTree .mul 8) ∧
      ∃ program, ((oddTree .mul 8).optimizeProgram true).outcome = .ok program ∧
        program.root = some (oddTree .shiftLeft 3) ∧
        ofText (oddTree .shiftLeft 3).toText = .ok (oddTree .shiftLeft 3) := by
  have read : ofText oddText = .ok (oddTree .mul 8) := by decide +kernel
  obtain ⟨again, left⟩ := toText_read_back read
  exact ⟨read, again, _, rfl, rfl, (left true _ _ rfl rfl).1⟩

end Node

end EventScript
