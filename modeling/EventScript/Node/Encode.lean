import EventScript.Json.Value
import EventScript.Node.Basic

/-! Writing a tree as JSON. Every field is present, in the order of the interchange format; what
is absent is null. -/
namespace EventScript

def wordJson (n : UInt64) : Json :=
  .number n.toNat

def optionJson {α : Type} (encode : α → Json) : Option α → Json
  | some a => encode a
  | none => .null

def Position.toJson (p : Position) : Json :=
  .object [("line", wordJson p.line), ("column", wordJson p.column)]

namespace Node

def recordJson (kind : Kind) (fields : List (String × Json)) (p : Option Position) : Json :=
  .object [("kind", .object [(kind.name, .object fields)]),
    ("location", optionJson Position.toJson p)]

mutual

def toJson : Node → Json
  | block statements p => recordJson .block [("statements", .array (allToJson statements))] p
  | assign target value p =>
      recordJson .assignment [("target", target.toJson), ("value", value.toJson)] p
  | ifWhen condition onTrue onFalse form p =>
      recordJson .ifWhen
        [("condition", condition.toJson), ("true_block", onTrue.toJson),
          ("false_block", slotToJson onFalse), ("edge_sensitive", .bool form.edgeSensitive),
          ("end_line", optionJson wordJson form.endLine)] p
  | foldedIf op left right onTrue onFalse form p =>
      recordJson .foldedIfWhen
        [("op", .string op.name), ("left", left.toJson), ("right", right.toJson),
          ("true_block", onTrue.toJson), ("false_block", slotToJson onFalse),
          ("edge_sensitive", .bool form.edgeSensitive),
          ("end_line", optionJson wordJson form.endLine)] p
  | whileLoop condition body p =>
      recordJson .whileLoop [("condition", condition.toJson), ("body", body.toJson)] p
  | foldedWhile op left right body p =>
      recordJson .foldedWhile
        [("op", .string op.name), ("left", left.toJson), ("right", right.toJson),
          ("body", body.toJson)] p
  | declare (.event id) p => recordJson .eventDecl [("event_id", wordJson id)] p
  | declare (.sub id) p => recordJson .subDecl [("sub_id", wordJson id)] p
  | invoke (.event id) args p =>
      recordJson .emit [("event_id", wordJson id), ("args", .array (allToJson args))] p
  | invoke (.sub id) args p =>
      recordJson .callSub [("sub_id", wordJson id), ("args", .array (allToJson args))] p
  | invoke (.function id) args p =>
      recordJson .call [("function_id", wordJson id), ("args", .array (allToJson args))] p
  | binary op left right p =>
      recordJson .binary
        [("op", .string op.name), ("left", left.toJson), ("right", right.toJson)] p
  | unary op operand p =>
      recordJson .unary [("op", .string op.name), ("operand", operand.toJson)] p
  | immediate value p => recordJson .immediate [("value", .number value.toInt)] p
  | cell .read address p => recordJson .load [("address", wordJson address)] p
  | cell .write address p => recordJson .store [("address", wordJson address)] p
  | element access array index p =>
      recordJson (match access with | .read => .arrayRead | .write => .arrayWrite)
        [("array_addr", wordJson array.address), ("array_size", wordJson array.size),
          ("array_name", .string array.name), ("index", index.toJson)] p

def allToJson : List Node → List Json
  | [] => []
  | node :: rest => node.toJson :: allToJson rest

def slotToJson : Option Node → Json
  | none => .null
  | some node => node.toJson

end

def toText (node : Node) : String :=
  node.toJson.text

end Node

end EventScript
