import EventScript.Node.Basic

/-! The records of the interchange format: which fields each kind of node has, in which order,
and what their values are. A node itself is a record of its body and its position. -/
namespace EventScript

inductive Shape where
  | word | int16 | flag | text | binaryOp | unaryOp
  | maybeWord
  | position | maybePosition
  | node | maybeNode | nodes
  | body
  | payload (kind : Kind)
  deriving DecidableEq, Repr

abbrev Shape.Value : Shape → Type
  | word => UInt64
  | int16 => Int16
  | flag => Bool
  | text => String
  | binaryOp => BinaryOp
  | unaryOp => UnaryOp
  | maybeWord => Option UInt64
  | position => Position
  | maybePosition => Option Position
  | node | body | payload _ => Node
  | maybeNode => Option Node
  | nodes => List Node

/-- The value of a field that an object leaves out, if it may. -/
def Shape.absent? : (shape : Shape) → Option shape.Value
  | maybeWord | maybePosition | maybeNode => some none
  | _ => none

structure Field where
  name : String
  shape : Shape
  /-- Whether the array form of the record may leave the field out as well. -/
  mayTrail : Bool := false
  deriving DecidableEq, Repr

abbrev Values : List Field → Type
  | [] => Unit
  | field :: fields => field.shape.Value × Values fields

structure Record where
  title : String
  fields : List Field
  deriving DecidableEq, Repr

namespace Record

abbrev position : Record where
  title := "struct Location"
  fields := [⟨"line", .word, false⟩, ⟨"column", .word, false⟩]

abbrev node : Record where
  title := "struct AstNode"
  fields := [⟨"kind", .body, false⟩, ⟨"location", .maybePosition, true⟩]

end Record

namespace Kind

abbrev fields : Kind → List Field
  | block => [⟨"statements", .nodes, false⟩]
  | assignment => [⟨"target", .node, false⟩, ⟨"value", .node, false⟩]
  | ifWhen =>
      [⟨"condition", .node, false⟩, ⟨"true_block", .node, false⟩,
        ⟨"false_block", .maybeNode, false⟩, ⟨"edge_sensitive", .flag, false⟩,
        ⟨"end_line", .maybeWord, false⟩]
  | foldedIfWhen =>
      [⟨"op", .binaryOp, false⟩, ⟨"left", .node, false⟩, ⟨"right", .node, false⟩,
        ⟨"true_block", .node, false⟩, ⟨"false_block", .maybeNode, false⟩,
        ⟨"edge_sensitive", .flag, false⟩, ⟨"end_line", .maybeWord, false⟩]
  | whileLoop => [⟨"condition", .node, false⟩, ⟨"body", .node, false⟩]
  | foldedWhile =>
      [⟨"op", .binaryOp, false⟩, ⟨"left", .node, false⟩, ⟨"right", .node, false⟩,
        ⟨"body", .node, false⟩]
  | eventDecl => [⟨"event_id", .word, false⟩]
  | subDecl => [⟨"sub_id", .word, false⟩]
  | emit => [⟨"event_id", .word, false⟩, ⟨"args", .nodes, false⟩]
  | callSub => [⟨"sub_id", .word, false⟩, ⟨"args", .nodes, false⟩]
  | call => [⟨"function_id", .word, false⟩, ⟨"args", .nodes, false⟩]
  | binary => [⟨"op", .binaryOp, false⟩, ⟨"left", .node, false⟩, ⟨"right", .node, false⟩]
  | unary => [⟨"op", .unaryOp, false⟩, ⟨"operand", .node, false⟩]
  | immediate => [⟨"value", .int16, false⟩]
  | load | store => [⟨"address", .word, false⟩]
  | arrayRead | arrayWrite =>
      [⟨"array_addr", .word, false⟩, ⟨"array_size", .word, false⟩, ⟨"array_name", .text, false⟩,
        ⟨"index", .node, false⟩]

abbrev record (kind : Kind) : Record where
  title := "struct variant AstNodeKind::" ++ kind.name
  fields := kind.fields

def build : (kind : Kind) → Values kind.fields → Node
  | block, (statements, ()) => .block statements none
  | assignment, (target, value, ()) => .assign target value none
  | ifWhen, (condition, onTrue, onFalse, edgeSensitive, endLine, ()) =>
      .ifWhen condition onTrue onFalse ⟨edgeSensitive, endLine⟩ none
  | foldedIfWhen, (op, left, right, onTrue, onFalse, edgeSensitive, endLine, ()) =>
      .foldedIf op left right onTrue onFalse ⟨edgeSensitive, endLine⟩ none
  | whileLoop, (condition, body, ()) => .whileLoop condition body none
  | foldedWhile, (op, left, right, body, ()) => .foldedWhile op left right body none
  | eventDecl, (id, ()) => .declare (.event id) none
  | subDecl, (id, ()) => .declare (.sub id) none
  | emit, (id, args, ()) => .invoke (.event id) args none
  | callSub, (id, args, ()) => .invoke (.sub id) args none
  | call, (id, args, ()) => .invoke (.function id) args none
  | binary, (op, left, right, ()) => .binary op left right none
  | unary, (op, operand, ()) => .unary op operand none
  | immediate, (value, ()) => .immediate value none
  | load, (address, ()) => .cell .read address none
  | store, (address, ()) => .cell .write address none
  | arrayRead, (address, size, name, index, ()) => .element .read ⟨address, size, name⟩ index none
  | arrayWrite, (address, size, name, index, ()) =>
      .element .write ⟨address, size, name⟩ index none

end Kind

end EventScript
