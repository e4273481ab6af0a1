import ClosureML.Syntax.Primitive

/-!
# Type expressions

The types that a program writes down, in ascriptions and as the parameters of constructors.

`TypeExpr.text` is the written form: arrows associate to the right, so only a function that is
itself a parameter stands in parentheses.
-/

namespace ClosureML

/-- A type as it is written in a program. `named` is a declared data type. -/
inductive TypeExpr where
  | base (base : BaseType)
  | named (name : String)
  | function (parameter result : TypeExpr)
  | tuple (elements : List TypeExpr)
  deriving Repr, Inhabited

namespace TypeExpr

/-- Is it a function type? -/
def isFunction : TypeExpr → Bool
  | function _ _ => true
  | _ => false

mutual

/-- The written form. -/
def text : TypeExpr → String
  | base b => b.text
  | named name => name
  | function parameter result =>
    (if parameter.isFunction then "(" ++ parameter.text ++ ")" else parameter.text)
      ++ " -> " ++ result.text
  | tuple elements => "(" ++ ", ".intercalate (texts elements) ++ ")"

/-- The written forms of several type expressions. -/
def texts : List TypeExpr → List String
  | [] => []
  | t :: ts => t.text :: texts ts

end

/-- Writing several is writing each. -/
theorem texts_eq_map (ts : List TypeExpr) : texts ts = ts.map text := by
  induction ts with
  | nil => simp [texts]
  | cons t ts ih => simp [texts, ih]

end TypeExpr

end ClosureML
