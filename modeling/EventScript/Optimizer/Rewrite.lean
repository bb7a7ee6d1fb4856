import EventScript.Optimizer.Rules

/-! One pass from the leaves to the root. A node that is reduced to nothing has no effect, and
its parent drops it. Arguments of calls are left as they are. -/
namespace EventScript.Node

mutual

def rewrite : Node → Pass (Option Node)
  | block statements p => do
      return some (block (← rewriteAll statements) p)
  | assign target value p => do
      let target ← (← target.rewrite) |> required .assignmentTarget
      let value ← (← value.rewrite) |> required .assignmentValue
      return some (assign target value p)
  | ifWhen condition onTrue onFalse form p => do
      let condition ← (← condition.rewrite) |> required .ifCondition
      let onTrue ← onTrue.rewrite
      let onFalse ← rewriteSlot onFalse
      reduceIf condition onTrue onFalse form p
  | whileLoop condition body p => do
      let condition ← (← condition.rewrite) |> required .whileCondition
      let body ← body.rewrite
      reduceWhile condition body p
  | binary op left right p => do
      let left ← (← left.rewrite) |> required .leftOperand
      let right ← (← right.rewrite) |> required .rightOperand
      some <$> reduceBinary op left right p
  | unary op operand p => do
      let operand ← (← operand.rewrite) |> required .unaryOperand
      some <$> reduceUnary op operand p
  | element access array index p => do
      let index ← (← index.rewrite) |> required .arrayIndex
      some <$> reduceElement access array index p
  | foldedIf .. => .fault (.alreadyFolded .foldedIfWhen)
  | foldedWhile .. => .fault (.alreadyFolded .foldedWhile)
  | declare entity p => return some (declare entity p)
  | invoke callee args p => return some (invoke callee args p)
  | immediate value p => return some (immediate value p)
  | cell access address p => return some (cell access address p)

/-- The statements of a block that are left, without those that are empty blocks. -/
def rewriteAll : List Node → Pass (List Node)
  | [] => return []
  | statement :: rest => do
      let kept ← statement.rewrite
      let rest ← rewriteAll rest
      return if isDead kept then rest else kept.toList ++ rest

def rewriteSlot : Option Node → Pass (Option Node)
  | none => return none
  | some node => node.rewrite

end

end EventScript.Node
