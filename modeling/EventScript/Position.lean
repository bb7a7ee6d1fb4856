/-! Places in a script. Nodes that no line of the script gave rise to have no place at all,
so every use of a position is optional. -/
namespace EventScript

/-- A line and a column of the script, both counted from one. -/
structure Position where
  line : UInt64
  column : UInt64
  deriving DecidableEq, Repr, Inhabited

def Position.text (p : Position) : String :=
  toString p.line.toNat ++ ":" ++ toString p.column.toNat

end EventScript
