import EventScript.Optimizer.Pass

/-! What becomes of one node once its parts are reduced. No rule looks deeper than the parts it is
given, so the order of the notes is the order in which the parts were reduced. -/
namespace EventScript.Node

def required (role : Role) : Option Node → Pass Node
  | some node => pure node
  | none => .fault (.vanished role)

def isDead : Option Node → Bool
  | none => true
  | some node => node.isEmptyBlock

def reduceBinary (op : BinaryOp) (left right : Node) (p : Option Position) : Pass Node :=
  match left.immediate?, right.immediate? with
  | some a, some b =>
      match op.apply a b with
      | some value => do
          Pass.note .binaryFolded p
          return immediate value p
      | none => .reject (.divisionByZero Rule.binary.issuer p)
  | none, some b =>
      match op.reduceStrength b with
      | .ok (some (shift, count)) => do
          Pass.note (if op = .mul then .multiplicationShifted else .divisionShifted) p
          return binary shift left (immediate count right.position) p
      | .ok none => return binary op left right p
      | .error fault => .fault fault
  | _, none => return binary op left right p

def reduceUnary (op : UnaryOp) (operand : Node) (p : Option Position) : Pass Node :=
  match operand.immediate? with
  | some a =>
      match op.apply a with
      | some value => do
          Pass.note .unaryFolded p
          return immediate value p
      | none => .reject (.rangeOverflow Rule.unary.issuer p)
  | none => return unary op operand p

def reduceElement (access : Access) (array : ArrayRef) (index : Node) (p : Option Position) :
    Pass Node :=
  match index.immediate? with
  | none => return element access array index p
  | some value =>
      let offset := value.toInt.toNat
      if 0 ≤ value ∧ offset < array.size.toNat then
        if array.address.toNat + offset < UInt64.size then do
          Pass.note (.elementResolved access) p
          return cell access (.ofNat (array.address.toNat + offset)) p
        else .fault .addressOverflow
      else
        .reject (.indexOutOfBounds (Rule.element access).issuer p access.verb array.name value
          array.size)

def splitTest (construct : Construct) (test : Node) : Pass (BinaryOp × Node × Node) :=
  match test with
  | binary op left right _ =>
      if op.isCondition then return (op, left, right)
      else .fault (.notComparison construct (.operator op))
  | other => .fault (.notComparison construct (.node other.kind))

/-- A fused conditional always has a first branch to jump over, if only an empty one. -/
def reduceIf (condition : Node) (onTrue onFalse : Option Node) (form : IfForm)
    (p : Option Position) : Pass (Option Node) :=
  if isDead onTrue && isDead onFalse then do
    Pass.note .ifEmpty p
    return none
  else
    match condition.immediate? with
    | some value =>
        if value ≠ 0 then do
          Pass.note .ifAlwaysTrue p
          return onTrue
        else do
          Pass.note .ifAlwaysFalse p
          return onFalse
    | none => do
        let (op, left, right) ← splitTest .ifWhen condition
        Pass.note .ifFused p
        return some (foldedIf op left right (onTrue.getD (block [] none)) onFalse form p)

def reduceWhile (condition : Node) (body : Option Node) (p : Option Position) :
    Pass (Option Node) :=
  match condition.immediate?, body with
  | some value, _ =>
      if value ≠ 0 then .reject (.infiniteLoop Rule.whileLoop.issuer p)
      else do
        Pass.note .whileAlwaysFalse p
        return none
  | none, none => do
      Pass.note .whileEmpty p
      return none
  | none, some body =>
      if body.isEmptyBlock then do
        Pass.note .whileEmpty p
        return none
      else do
        let (op, left, right) ← splitTest .whileLoop condition
        Pass.note .whileFused p
        return some (foldedWhile op left right body p)

end EventScript.Node
