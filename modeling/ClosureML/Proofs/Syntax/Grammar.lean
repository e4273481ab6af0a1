import ClosureML.Proofs.Syntax.Bare
import ClosureML.Token.Lexer

/-!
# Trees that the grammar describes

The type of trees is open, but the parser makes only some of them: expressions stand where
expressions belong, patterns where patterns belong, names are words, and nothing is written down yet
that later passes find out.

* `IsWord`: a name that is a word of the language, without the signs that later passes put into
  names;
* `IsPattern`, `IsConstructor`, `IsExpression`, `IsFunction`, `IsArm`, `IsProgram`: what stands
  where.
-/

namespace ClosureML

/-! ## 1. Names -/

/-- A name is a word: letters, digits and underscores. -/
def IsWord (name : String) : Prop := ∀ c ∈ name.toList, isWordCharacter c = true

instance (name : String) : Decidable (IsWord name) :=
  decidable_of_iff (name.toList.all isWordCharacter = true) List.all_eq_true

/-- A word does not hold the sign that renamed binders hold. -/
theorem IsWord.not_hash {name : String} (h : IsWord name) : '#' ∉ name.toList := fun hmem =>
  absurd (h '#' hmem) (by decide)

/-- A word does not hold the sign that generated names begin with. -/
theorem IsWord.not_dollar {name : String} (h : IsWord name) : '$' ∉ name.toList := fun hmem =>
  absurd (h '$' hmem) (by decide)

/-! ## 2. What stands where -/

/-- All trees of a list have a property. -/
inductive Each (p : Node → Prop) : List Node → Prop where
  | nil : Each p []
  | cons {n : Node} {ns : List Node} (hn : p n) (hns : Each p ns) : Each p (n :: ns)

theorem each_iff {p : Node → Prop} {ns : List Node} : Each p ns ↔ ∀ n ∈ ns, p n := by
  induction ns with
  | nil => exact ⟨fun _ _ h => absurd h List.not_mem_nil, fun _ => .nil⟩
  | cons n ns ih =>
    rw [List.forall_mem_cons, ← ih]
    constructor
    · rintro (_ | ⟨hn, hns⟩)
      exact ⟨hn, hns⟩
    · exact fun h => .cons h.1 h.2

/-- A pattern of a program that was just read. -/
inductive IsPattern : Node → Prop where
  | binder {m : Mark} {x : String} (hx : IsWord x) : IsPattern (.patternBinder m x)
  | literal {m : Mark} {v : Literal} : IsPattern (.patternLiteral m v)
  | tuple {m : Mark} {ps : List Node} (hne : ps ≠ []) (hps : ∀ p ∈ ps, IsPattern p) :
      IsPattern (.patternTuple m ps)
  | constructor {m : Mark} {c : String} {ps : List Node} (hc : IsWord c)
      (hps : ∀ p ∈ ps, IsPattern p) : IsPattern (.patternConstructor m c ps none)

/-- A constructor of a data type of a program that was just read. -/
inductive IsConstructor : Node → Prop where
  | mk {m : Mark} {c : String} {parameters : List TypeExpr} (hc : IsWord c) :
      IsConstructor (.dataConstructor m c parameters none)

mutual

/-- An expression of a program that was just read. -/
inductive IsExpression : Node → Prop where
  | literal {m : Mark} {v : Literal} : IsExpression (.literal m v)
  | reference {m : Mark} {x : String} (hx : IsWord x) : IsExpression (.reference m x)
  | builtin {m : Mark} {b : Builtin} : IsExpression (.builtin m b)
  | lambda {m : Mark} {x : String} {a : Option TypeExpr} {body : Node} (hx : IsWord x)
      (hbody : IsExpression body) : IsExpression (.lambda m x a body)
  | application {m : Mark} {f a : Node} (hf : IsExpression f) (ha : IsExpression a) :
      IsExpression (.application m f a)
  | letIn {m : Mark} {x : String} {a : Option TypeExpr} {value body : Node} (hx : IsWord x)
      (hvalue : IsExpression value) (hbody : IsExpression body) :
      IsExpression (.letIn m x a value body)
  | letRec {m : Mark} {arms : List Node} {body : Node} (harms : ∀ arm ∈ arms, IsFunction arm)
      (hbody : IsExpression body) : IsExpression (.letRec m arms body)
  | conditional {m : Mark} {c t e : Node} (hc : IsExpression c) (ht : IsExpression t)
      (he : IsExpression e) : IsExpression (.conditional m c t e)
  | binary {m : Mark} {o : BinaryOperator} {l r : Node} (hl : IsExpression l)
      (hr : IsExpression r) : IsExpression (.binary m o l r)
  | unary {m : Mark} {o : UnaryOperator} {e : Node} (he : IsExpression e) :
      IsExpression (.unary m o e)
  | sequence {m : Mark} {es : List Node} (hne : es ≠ []) (hes : ∀ e ∈ es, IsExpression e) :
      IsExpression (.sequence m es)
  | tuple {m : Mark} {es : List Node} (hne : es ≠ []) (hes : ∀ e ∈ es, IsExpression e) :
      IsExpression (.tuple m es)
  | projection {m : Mark} {index : Nat} {e : Node} (he : IsExpression e) :
      IsExpression (.projection m index none e)
  | dataType {m : Mark} {d : String} {cs : List Node} {body : Node}
      (hcs : ∀ c ∈ cs, IsConstructor c) (hbody : IsExpression body) :
      IsExpression (.dataType m d cs body)
  | matchWith {m : Mark} {e : Node} {arms : List Node} (he : IsExpression e)
      (harms : ∀ arm ∈ arms, IsArm arm) : IsExpression (.matchWith m e arms)

/-- A function of a group of a program that was just read. -/
inductive IsFunction : Node → Prop where
  | mk {m : Mark} {f x : String} {pa ra : Option TypeExpr} {body : Node} (hf : IsWord f)
      (hx : IsWord x) (hbody : IsExpression body) : IsFunction (.letRecArm m f x pa ra body)

/-- An arm of a `match` of a program that was just read. -/
inductive IsArm : Node → Prop where
  | mk {m : Mark} {p body : Node} (hp : IsPattern p) (hbody : IsExpression body) :
      IsArm (.matchArm m p body)

end

/-- A program that was just read. -/
inductive IsProgram : Node → Prop where
  | mk {m : Mark} {e : Node} (he : IsExpression e) : IsProgram (.top m e)

end ClosureML
