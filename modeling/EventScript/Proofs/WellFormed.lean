import EventScript.Node.Basic

/-! The trees that a front end makes of a script: expressions, targets, tests and statements each
stand where they belong. Two things are left open: whether a call may stand for a value, and
whether every array ends within the address space. -/
namespace EventScript

def ArrayRef.fits (array : ArrayRef) : Bool :=
  array.address.toNat + array.size.toNat ≤ UInt64.size

structure Grammar where
  /-- A call may stand where a value is needed. -/
  calls : Bool
  /-- Every array has to end within the address space. -/
  bounded : Bool

namespace Grammar
open Node

def frontEnd : Grammar := ⟨true, true⟩

/-- What a front end makes of a script that needs no value of a call. -/
def callFree : Grammar := ⟨false, true⟩

def arithmetic : Grammar := ⟨false, false⟩

def Admits (g : Grammar) (array : ArrayRef) : Prop :=
  g.bounded = true → array.fits = true

inductive Expression (g : Grammar) : Node → Prop where
  | immediate : Expression g (immediate v p)
  | load : Expression g (cell .read address p)
  | arrayRead : g.Admits array → Expression g i → Expression g (element .read array i p)
  | unary : Expression g n → Expression g (unary op n p)
  | binary : Expression g l → Expression g r → Expression g (binary op l r p)
  | call : g.calls = true → (∀ a ∈ args, Expression g a) → Expression g (invoke callee args p)

inductive Target (g : Grammar) : Node → Prop where
  | store : Target g (cell .write address p)
  | arrayWrite : g.Admits array → g.Expression i → Target g (element .write array i p)

inductive Test (g : Grammar) : Node → Prop where
  | constant : Test g (immediate v p)
  | comparison : op.isCondition = true → g.Expression l → g.Expression r →
      Test g (binary op l r p)

inductive Statement (g : Grammar) : Node → Prop where
  | block : (∀ s ∈ ss, Statement g s) → Statement g (block ss p)
  | assign : g.Target target → g.Expression value → Statement g (assign target value p)
  | ifWhen : g.Test c → Statement g t → (∀ n ∈ e, Statement g n) →
      Statement g (ifWhen c t e form p)
  | whileLoop : g.Test c → Statement g b → Statement g (whileLoop c b p)
  | declare : Statement g (declare entity p)
  | call : (∀ a ∈ args, g.Expression a) → Statement g (invoke callee args p)

/-- A tree of a front end, be it a whole script or a part of one. -/
inductive WellFormed (g : Grammar) : Node → Prop where
  | statement : g.Statement t → WellFormed g t
  | expression : g.Expression t → WellFormed g t
  | target : g.Target t → WellFormed g t

variable {g g' : Grammar}

theorem Test.expression (h : g.Test n) : g.Expression n := by
  cases h with
  | constant => exact .immediate
  | comparison _ hl hr => exact .binary hl hr

theorem Expression.mono (calls : g.calls = true → g'.calls = true)
    (bounded : g'.bounded = true → g.bounded = true) (h : g.Expression n) : g'.Expression n := by
  induction h with
  | immediate => exact .immediate
  | load => exact .load
  | arrayRead fits _ ih => exact .arrayRead (fun h => fits (bounded h)) ih
  | unary _ ih => exact .unary ih
  | binary _ _ ihl ihr => exact .binary ihl ihr
  | call allowed _ ih => exact .call (calls allowed) ih

end Grammar

abbrev Node.Arithmetic (e : Node) : Prop := Grammar.arithmetic.Expression e

theorem Node.Arithmetic.of_callFree {e : Node} (h : Grammar.callFree.Expression e) :
    e.Arithmetic :=
  h.mono (fun h => by cases h) (fun h => by cases h)

end EventScript
