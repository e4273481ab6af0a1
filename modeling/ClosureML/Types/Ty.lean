import ClosureML.Syntax.TypeExpr
import ClosureML.Types.VarSet

/-!
# Types

The types that inference gives to the nodes of a program: base types, data types known by their
name, functions, tuples of any number of elements, and variables.

* `Ty.occurrences` lists the variables from left to right, `Ty.freeVariables` is their set;
* `Ty.substitute` replaces variables;
* `Ty.text` is the written form, `Ty.canonical` the one that names the variables `'a`, `'b`, …
  in the order in which they first appear;
* `TypeExpr.toTy` is the type that an ascription stands for.

Main statements: `Ty.same_iff` (equality is decided), `Ty.occurs_iff`.
-/

namespace ClosureML

/-- A type. -/
inductive Ty where
  | base (base : BaseType)
  | data (name : String)
  | function (parameter result : Ty)
  | tuple (elements : List Ty)
  | var (v : TypeVar)
  deriving Repr, Inhabited

namespace Ty

/-- The type of integers. -/
abbrev int : Ty := base .int

/-- The type of truth values. -/
abbrev bool : Ty := base .bool

/-- The type with one value. -/
abbrev unit : Ty := base .unit

/-! ## 1. Equality -/

mutual

/-- Are two types the same? -/
def same : Ty → Ty → Bool
  | base a, base b => a == b
  | data a, data b => a == b
  | function p r, function p' r' => same p p' && same r r'
  | tuple ts, tuple us => sameAll ts us
  | var v, var w => v == w
  | _, _ => false

/-- Are two lists of types the same? -/
def sameAll : List Ty → List Ty → Bool
  | [], [] => true
  | t :: ts, u :: us => same t u && sameAll ts us
  | _, _ => false

end

mutual

/-- **`same` decides equality of types.** -/
theorem same_iff : ∀ t u : Ty, same t u = true ↔ t = u
  | base _, u => by cases u <;> simp [same]
  | data _, u => by cases u <;> simp [same]
  | function p r, u => by cases u <;> simp [same, same_iff p, same_iff r]
  | tuple ts, u => by cases u <;> simp [same, sameAll_iff ts]
  | var _, u => by cases u <;> simp [same]

theorem sameAll_iff : ∀ ts us : List Ty, sameAll ts us = true ↔ ts = us
  | [], us => by cases us <;> simp [sameAll]
  | t :: ts, us => by cases us <;> simp [sameAll, same_iff t, sameAll_iff ts]

end

instance : DecidableEq Ty := fun t u => decidable_of_iff _ (same_iff t u)

/-! ## 2. Variables -/

mutual

/-- The variables of a type from left to right, each as often as it appears. -/
def occurrences : Ty → List TypeVar
  | base _ => []
  | data _ => []
  | function p r => p.occurrences ++ r.occurrences
  | tuple ts => occurrencesAll ts
  | var v => [v]

/-- The variables of several types. -/
def occurrencesAll : List Ty → List TypeVar
  | [] => []
  | t :: ts => t.occurrences ++ occurrencesAll ts

end

/-- The set of the variables of a type. -/
def freeVariables (t : Ty) : VarSet := VarSet.ofList t.occurrences

/-- Does the variable appear in the type? -/
def occurs (v : TypeVar) (t : Ty) : Bool := t.occurrences.contains v

theorem occurs_iff {v : TypeVar} {t : Ty} : t.occurs v = true ↔ v ∈ t.occurrences := by
  simp [occurs]

theorem mem_freeVariables {v : TypeVar} {t : Ty} : v ∈ t.freeVariables ↔ v ∈ t.occurrences := by
  simp [freeVariables, VarSet.ofList, VarSet.mem_union]

/-! ## 3. Substitution -/

mutual

/-- The type in which each variable that `σ` knows is replaced by what `σ` gives for it, all at
    once. -/
def substitute (σ : TypeVar → Option Ty) : Ty → Ty
  | base b => base b
  | data name => data name
  | function p r => function (p.substitute σ) (r.substitute σ)
  | tuple ts => tuple (substituteAll σ ts)
  | var v => (σ v).getD (var v)

/-- Substitution in several types. -/
def substituteAll (σ : TypeVar → Option Ty) : List Ty → List Ty
  | [] => []
  | t :: ts => t.substitute σ :: substituteAll σ ts

end

/-- The replacement of one variable. -/
def single (v : TypeVar) (t : Ty) : TypeVar → Option Ty := fun w => if w = v then some t else none

/-- Substitution in several types is substitution in each. -/
theorem substituteAll_eq_map (σ : TypeVar → Option Ty) (ts : List Ty) :
    substituteAll σ ts = ts.map (substitute σ) := by
  induction ts with
  | nil => simp [substituteAll]
  | cons t ts ih => simp [substituteAll, ih]

mutual

/-- A substitution that knows none of a type's variables leaves it alone. -/
theorem substitute_eq_self {σ : TypeVar → Option Ty} :
    ∀ t : Ty, (∀ v ∈ t.occurrences, σ v = none) → t.substitute σ = t
  | base _, _ => by simp [substitute]
  | data _, _ => by simp [substitute]
  | function p r, h => by
    rw [substitute, substitute_eq_self p fun v hv => h v (by simp [occurrences, hv]),
      substitute_eq_self r fun v hv => h v (by simp [occurrences, hv])]
  | tuple ts, h => by
    rw [substitute, substituteAll_eq_self ts fun v hv => h v (by simpa [occurrences] using hv)]
  | var v, h => by simp [substitute, h v (by simp [occurrences])]

theorem substituteAll_eq_self {σ : TypeVar → Option Ty} :
    ∀ ts : List Ty, (∀ v ∈ occurrencesAll ts, σ v = none) → substituteAll σ ts = ts
  | [], _ => by simp [substituteAll]
  | t :: ts, h => by
    rw [substituteAll, substitute_eq_self t fun v hv => h v (by simp [occurrencesAll, hv]),
      substituteAll_eq_self ts fun v hv => h v (by simp [occurrencesAll, hv])]

end

/-! ## 4. Written forms -/

/-- Is it a function type? -/
def isFunction : Ty → Bool
  | function _ _ => true
  | _ => false

mutual

/-- The written form under a naming of the variables. Arrows associate to the right, so only a
    function that is itself a parameter stands in parentheses. -/
def render (name : TypeVar → String) : Ty → String
  | base b => b.text
  | data d => d
  | function p r =>
    (if p.isFunction then "(" ++ p.render name ++ ")" else p.render name)
      ++ " -> " ++ r.render name
  | tuple ts => "(" ++ ", ".intercalate (renderAll name ts) ++ ")"
  | var v => name v

/-- The written forms of several types. -/
def renderAll (name : TypeVar → String) : List Ty → List String
  | [] => []
  | t :: ts => t.render name :: renderAll name ts

end

/-- The written form in which a variable shows its number. -/
def text (t : Ty) : String := t.render TypeVar.text

/-- The `n`-th name of a sequence of variables: `'a` to `'z`, then `'a1` to `'z1`, and so on. -/
def canonicalName (n : Nat) : String :=
  let letter := (Char.ofNat ('a'.toNat + n % 26)).toString
  if n / 26 = 0 then "'" ++ letter else "'" ++ letter ++ toString (n / 26)

/-- The written form in which the variables are named in the order of their first appearance. -/
def canonical (t : Ty) : String :=
  let order := t.occurrences.eraseDups
  t.render fun v => canonicalName (order.idxOf v)

end Ty

/-! ## 5. The type of an ascription -/

namespace TypeExpr

mutual

/-- The type that a type expression stands for. -/
def toTy : TypeExpr → Ty
  | base b => .base b
  | named name => .data name
  | function parameter result => .function parameter.toTy result.toTy
  | tuple elements => .tuple (toTys elements)

/-- The types that several type expressions stand for. -/
def toTys : List TypeExpr → List Ty
  | [] => []
  | t :: ts => t.toTy :: toTys ts

end

mutual

/-- The type of an ascription has no variables. -/
theorem occurrences_toTy : ∀ t : TypeExpr, t.toTy.occurrences = []
  | base _ => by simp [toTy, Ty.occurrences]
  | named _ => by simp [toTy, Ty.occurrences]
  | function p r => by simp [toTy, Ty.occurrences, occurrences_toTy p, occurrences_toTy r]
  | tuple ts => by simp [toTy, Ty.occurrences, occurrencesAll_toTys ts]

theorem occurrencesAll_toTys : ∀ ts : List TypeExpr, Ty.occurrencesAll (toTys ts) = []
  | [] => by simp [toTys, Ty.occurrencesAll]
  | t :: ts => by
    simp [toTys, Ty.occurrencesAll, occurrences_toTy t, occurrencesAll_toTys ts]

end

end TypeExpr

end ClosureML
