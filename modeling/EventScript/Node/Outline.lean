import EventScript.Node.Basic

/-! The outline of a tree: one line a node, two blanks deeper than the line of its parent. -/
namespace EventScript.Node

def heading : Node → String
  | block .. => "Block"
  | assign .. => "Assign"
  | ifWhen _ _ _ form _ => if form.edgeSensitive then "When" else "If"
  | foldedIf op _ _ _ _ form _ =>
      let head := (if form.edgeSensitive then "Folded when: " else "Folded if: ") ++ op.symbol
      match form.endLine with
      | some line => head ++ " (end line " ++ toString line.toNat ++ ")"
      | none => head
  | whileLoop .. => "While"
  | foldedWhile op .. => "Folded while: " ++ op.symbol
  | declare (.event id) _ => "Event: " ++ toString id.toNat
  | declare (.sub id) _ => "Sub: " ++ toString id.toNat
  | invoke (.event id) .. => "Emit: " ++ toString id.toNat
  | invoke (.sub id) .. => "CallSub: " ++ toString id.toNat
  | invoke (.function id) .. => "Call: " ++ toString id.toNat
  | binary op .. => "Arithmetic: " ++ op.symbol
  | unary op .. => "Unary arithmetic: " ++ op.symbol
  | immediate value _ => "Immediate: " ++ toString value.toInt
  | cell .read address _ => "Load: addr " ++ toString address.toNat
  | cell .write address _ => "Store: addr " ++ toString address.toNat
  | element access array _ _ =>
      (match access with
        | .read => "ArrayRead: "
        | .write => "ArrayWrite: ") ++ array.name ++
      " (addr " ++ toString array.address.toNat ++ ", size " ++ toString array.size.toNat ++ ")"

def headingLine (depth : Nat) (node : Node) : String :=
  String.ofList (List.replicate (2 * depth) ' ') ++ node.heading ++ "\n"

mutual

def outlineFrom (depth : Nat) (node : Node) : String :=
  node.headingLine depth ++
    match node with
    | block statements _ => outlineAll (depth + 1) statements
    | assign target value _ => target.outlineFrom (depth + 1) ++ value.outlineFrom (depth + 1)
    | ifWhen condition onTrue none _ _ =>
        condition.outlineFrom (depth + 1) ++ onTrue.outlineFrom (depth + 1)
    | ifWhen condition onTrue (some onFalse) _ _ =>
        condition.outlineFrom (depth + 1) ++ onTrue.outlineFrom (depth + 1) ++
          onFalse.outlineFrom (depth + 1)
    | foldedIf _ left right onTrue none _ _ =>
        left.outlineFrom (depth + 1) ++ right.outlineFrom (depth + 1) ++
          onTrue.outlineFrom (depth + 1)
    | foldedIf _ left right onTrue (some onFalse) _ _ =>
        left.outlineFrom (depth + 1) ++ right.outlineFrom (depth + 1) ++
          onTrue.outlineFrom (depth + 1) ++ onFalse.outlineFrom (depth + 1)
    | whileLoop condition body _ =>
        condition.outlineFrom (depth + 1) ++ body.outlineFrom (depth + 1)
    | foldedWhile _ left right body _ =>
        left.outlineFrom (depth + 1) ++ right.outlineFrom (depth + 1) ++
          body.outlineFrom (depth + 1)
    | invoke _ args _ => outlineAll (depth + 1) args
    | binary _ left right _ => left.outlineFrom (depth + 1) ++ right.outlineFrom (depth + 1)
    | unary _ operand _ => operand.outlineFrom (depth + 1)
    | element _ _ index _ => index.outlineFrom (depth + 1)
    | declare .. | immediate .. | cell .. => ""

def outlineAll (depth : Nat) : List Node → String
  | [] => ""
  | node :: rest => node.outlineFrom depth ++ outlineAll depth rest

end

def outline (node : Node) : String :=
  node.outlineFrom 0

end EventScript.Node
