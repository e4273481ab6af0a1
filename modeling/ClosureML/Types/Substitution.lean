import ClosureML.Types.Constraint

/-!
# Substitutions

A substitution binds variables to types. None of the types it binds to holds a variable that it
binds itself, so applying it once replaces all it knows.

* `Substitution.apply` replaces the bound variables of a type;
* `Substitution.bind` binds one more variable, and replaces it in the types bound so far.

Main statement: `Substitution.find?_bind`.
-/

namespace ClosureML

/-- Variables with the types they stand for. -/
structure Substitution where
  bindings : List (TypeVar × Ty)
  deriving DecidableEq, Repr

namespace Substitution

/-- The substitution that replaces nothing. -/
def empty : Substitution := ⟨[]⟩

instance : Inhabited Substitution := ⟨empty⟩

/-- The number of variables that are bound. -/
def size (s : Substitution) : Nat := s.bindings.length

/-- Is no variable bound? -/
def isEmpty (s : Substitution) : Bool := s.bindings.isEmpty

/-- The type that a list of bindings gives for a variable. -/
def findIn (v : TypeVar) : List (TypeVar × Ty) → Option Ty
  | [] => none
  | (w, t) :: rest => if v = w then some t else findIn v rest

/-- The type that stands for a variable. -/
def find? (s : Substitution) (v : TypeVar) : Option Ty := findIn v s.bindings

/-- The type with its bound variables replaced. -/
def apply (s : Substitution) (t : Ty) : Ty := t.substitute s.find?

/-- The equation with its bound variables replaced. -/
def applyConstraint (s : Substitution) (c : Constraint) : Constraint := c.substitute s.find?

/-- The substitution that first replaces as `s` does, and then `v` by `t`. -/
def bind (s : Substitution) (v : TypeVar) (t : Ty) : Substitution :=
  ⟨(v, t) :: s.bindings.map fun (w, u) => (w, u.substitute (Ty.single v t))⟩

theorem findIn_map (f : Ty → Ty) (v : TypeVar) (bindings : List (TypeVar × Ty)) :
    findIn v (bindings.map fun (w, u) => (w, f u)) = (findIn v bindings).map f := by
  induction bindings with
  | nil => rfl
  | cons entry rest ih =>
    obtain ⟨w, u⟩ := entry
    by_cases h : v = w <;> simp [findIn, h, ih]

/-- What a new binding adds: `v` stands for `t`, the others stand for what they stood for with `v`
    replaced. -/
theorem find?_bind (s : Substitution) (v w : TypeVar) (t : Ty) :
    (s.bind v t).find? w =
      if w = v then some t else (s.find? w).map (Ty.substitute (Ty.single v t)) := by
  simp only [bind, find?, findIn, findIn_map]

end Substitution

end ClosureML
