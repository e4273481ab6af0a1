import ClosureML.Diagnostic.Report
import ClosureML.Names.Supply
import ClosureML.Syntax.Node

/-!
# What lowering is made of

Lowering replaces richer constructs by functions, applications, `let` and conditionals. The names
it needs are taken from a supply, and begin with `$`, as no name of a program does.

* `Lower` is the effect of lowering, `freshName` and `freshNames` take names;
* the other definitions build nodes that stand at the position of what they replace.
-/

namespace ClosureML

namespace Lowering

/-! ## 1. Effects -/

/-- Lowering takes names from a supply, which a failure leaves as it is by then. -/
abbrev Lower := EStateM Failure Supply

/-- Lowering ends with an error of the program. -/
def fail {α : Type} (cause : Cause) (position : Position) : Lower α :=
  throw (.error ⟨cause, position⟩)

/-- A new name. -/
def freshName (stem : String) : Lower String := modifyGet fun s => s.generated stem

/-- As many new names as asked for. -/
def freshNames (stem : String) : Nat → Lower (List String)
  | 0 => return []
  | n + 1 => do
    let x ← freshName stem
    return x :: (← freshNames stem n)

/-! ## 2. Nodes -/

/-- An integer. -/
def integer (p : Position) (n : Int) : Node := .literal (.at p) (.integer n)

/-- A variable. -/
def reference (p : Position) (x : String) : Node := .reference (.at p) x

/-- An application. -/
def apply (p : Position) (function argument : Node) : Node := .application (.at p) function argument

/-- A function. -/
def function (p : Position) (x : String) (body : Node) : Node := .lambda (.at p) x none body

/-- A function of several arguments, one after the other. -/
def functions (p : Position) (xs : List String) (body : Node) : Node :=
  xs.foldr (function p) body

/-- A `let`. -/
def bind (p : Position) (x : String) (value body : Node) : Node :=
  .letIn (.at p) x none value body

/-- A conditional. -/
def choose (p : Position) (condition thenBranch elseBranch : Node) : Node :=
  .conditional (.at p) condition thenBranch elseBranch

/-- A test whether two values are equal. -/
def equals (p : Position) (lhs rhs : Node) : Node := .binary (.at p) .equals lhs rhs

/-- A component of the tuple of `arity` elements that a variable holds. -/
def component (p : Position) (x : String) (index arity : Nat) : Node :=
  .projection (.at p) index (some arity) (reference p x)

/-- A pair. -/
def pair (p : Position) (first second : Node) : Node := .tuple (.at p) [first, second]

end Lowering

end ClosureML
