import EventScript.Optimizer.Rewrite

/-! Optimizing a tree with a new optimizer, and optimizing a whole program. -/
namespace EventScript

structure Program where
  root : Option Node
  diagnostics : List Diagnostic

namespace Node

def optimizeSlot (slot : Option Node) : Traced (Option Node) :=
  ((Optimizer.create false).run (rewriteSlot slot)).1

def optimize (node : Node) : Traced (Option Node) :=
  ((Optimizer.create false).run node.rewrite).1

/-- Whatever is left of a program has to be emittable. -/
def rewriteProgram (root : Node) : Pass Program := do
  let left ← root.rewrite
  if left.all isEmittable then return ⟨left, ← Pass.takeNotes⟩ else .fault .notEmittable

def optimizeProgram (root : Node) (tracing : Bool) : Traced Program :=
  ((Optimizer.create tracing).run root.rewriteProgram).1

end Node

end EventScript
