import ClosureML.Source
import ClosureML.Types.Ty

/-!
# Equations between types, and what names are bound to

Inference collects equations between types. A name is bound to a type, or to a schema: a type in
which some variables stand for any type that keeps the schema's equations.

* `Constraint` is an equation with the position that asks for it;
* `Binding` is what a name is bound to.
-/

namespace ClosureML

/-! ## 1. Equations -/

/-- Two types that must be equal, and where the program asks for it. -/
structure Constraint where
  left : Ty
  right : Ty
  position : Position
  deriving DecidableEq, Repr

namespace Constraint

/-- Does the equation hold as it stands? -/
def isTrivial (c : Constraint) : Bool := decide (c.left = c.right)

/-- The equation with its variables replaced. -/
def substitute (σ : TypeVar → Option Ty) (c : Constraint) : Constraint :=
  ⟨c.left.substitute σ, c.right.substitute σ, c.position⟩

/-- The variables of an equation, from left to right. -/
def occurrences (c : Constraint) : List TypeVar := c.left.occurrences ++ c.right.occurrences

/-- The set of the variables of an equation. -/
def freeVariables (c : Constraint) : VarSet := VarSet.ofList c.occurrences

/-- The written form. -/
def text (c : Constraint) : String := c.left.text ++ " = " ++ c.right.text

end Constraint

/-! ## 2. Bindings -/

/-- A type in which the `quantified` variables stand for any types that keep the equations. -/
structure Schema where
  quantified : VarSet
  type : Ty
  constraints : List Constraint
  deriving DecidableEq, Repr

/-- The variables of a schema that stand for one type each. -/
def Schema.freeVariables (s : Schema) : VarSet :=
  (VarSet.ofList (s.type.occurrences ++ s.constraints.flatMap Constraint.occurrences)).diff
    s.quantified

/-- What a name is bound to: one type, or a schema. -/
inductive Binding where
  | mono (type : Ty)
  | poly (schema : Schema)
  deriving DecidableEq, Repr

/-- The variables of a binding that stand for one type each. -/
def Binding.freeVariables : Binding → VarSet
  | mono t => t.freeVariables
  | poly s => s.freeVariables

end ClosureML
