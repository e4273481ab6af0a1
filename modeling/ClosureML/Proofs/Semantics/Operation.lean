import ClosureML.Proofs.Semantics.Computation
import ClosureML.Syntax.Primitive
import Mathlib.Algebra.Group.Int.Defs
import Mathlib.Algebra.GroupWithZero.Nat

/-!
# What operators and builtins do

Operators and builtins work on machine words, signed and of 64 bits; truth values and the unit value
are words too. Values of other kinds are seen only as such: they are printed opaquely, and equality
and exit codes do not accept them.

* `BinaryOperator.compute` is the result of an operator on words, `BinaryOperator.operate` and
  `UnaryOperator.operate` on values that need not be words;
* `Builtin.perform` is what a builtin prints.

Main statement: `BinaryOperator.operate_words` (an operator has a result on words, except for the
faults of division).
-/

namespace ClosureML

/-! ## 1. Words -/

/-- The word that an integer is cut down to. -/
def wrap (n : Int) : Int := n.bmod (2 ^ 64)

/-- The word of a truth value. -/
def truth (p : Prop) [Decidable p] : Int := if p then 1 else 0

/-- How a value is printed, of which `n?` is the word if it is one. -/
def printed (n? : Option Int) : String :=
  match n? with
  | some n => toString n
  | none => "<closure>"

/-! ## 2. Operators -/

namespace BinaryOperator

/-- Division has no result: the divisor is zero, or the quotient is no word. -/
def Faults (a b : Int) : Prop := b = 0 ∨ a = -2 ^ 63 ∧ b = -1

instance (a b : Int) : Decidable (Faults a b) := inferInstanceAs (Decidable (_ ∨ _))

/-- The result of an operator on words. Division rounds to zero. -/
def compute : BinaryOperator → Int → Int → Option Int
  | multiply, a, b => some (wrap (a * b))
  | divide, a, b => if Faults a b then none else some (a.tdiv b)
  | modulus, a, b => if Faults a b then none else some (a.tmod b)
  | add, a, b => some (wrap (a + b))
  | subtract, a, b => some (wrap (a - b))
  | greaterThan, a, b => some (truth (a > b))
  | lessThan, a, b => some (truth (a < b))
  | greaterOrEqual, a, b => some (truth (a ≥ b))
  | lessOrEqual, a, b => some (truth (a ≤ b))
  | equals, a, b => some (truth (a = b))
  | notEquals, a, b => some (truth (a ≠ b))

/-- What an operator makes of two values, of which the words are given, if they are words. -/
def operate (o : BinaryOperator) (a? b? : Option Int) : Except Stop Int :=
  match a?, b? with
  | some a, some b =>
    match o.compute a b with
    | some n => .ok n
    | none => .error .fault
  | _, _ => .error (if o.operatorClass = .equality then .mismatch else .wrong)

/-- **An operator has a result on words**, except for the faults of division. -/
theorem operate_words (o : BinaryOperator) (a b : Int) :
    (∃ n, o.operate (some a) (some b) = .ok n) ∨ o.operate (some a) (some b) = .error .fault := by
  rw [operate]
  cases o.compute a b with
  | some n => exact .inl ⟨n, rfl⟩
  | none => exact .inr rfl

theorem operate_ne_timeout {o : BinaryOperator} {a? b? : Option Int} {e : Stop}
    (h : o.operate a? b? = .error e) : e ≠ .timeout := by
  unfold operate at h
  split at h
  · split at h
    · cases h
    · cases h
      exact Stop.noConfusion
  · split at h
    all_goals
      cases h
      exact Stop.noConfusion

/-- Equality of two words is always decided. -/
theorem operate_equals (a b : Int) : equals.operate (some a) (some b) = .ok (truth (a = b)) := rfl

end BinaryOperator

namespace UnaryOperator

/-- What an operator makes of a value, of which the word is given, if it is one. -/
def operate : UnaryOperator → Option Int → Except Stop Int
  | negate, some a => .ok (wrap (-a))
  | negate, none => .error .wrong

theorem operate_ne_timeout {o : UnaryOperator} {a? : Option Int} {e : Stop}
    (h : o.operate a? = .error e) : e ≠ .timeout := by
  cases o
  cases a? with
  | some a => cases h
  | none =>
    cases h
    exact Stop.noConfusion

end UnaryOperator

/-! ## 3. Builtins -/

namespace Builtin

/-- What a builtin prints when it is called with a value, of which the word is given, if it is one;
    its result is the unit value. `panic` ends the program. -/
def perform : Builtin → Option Int → Except Stop String
  | println, a? => .ok (printed a? ++ "\n")
  | print, a? => .ok (printed a?)
  | panic, some code => .error (.panic code)
  | panic, none => .error .mismatch

/-- Only `panic` ends the program, and only with an exit code or for want of one. -/
theorem error_of_perform {b : Builtin} {a? : Option Int} {e : Stop}
    (h : b.perform a? = .error e) : (∃ code, e = .panic code) ∨ e = .mismatch := by
  cases b with
  | println => cases h
  | print => cases h
  | panic =>
    cases a? with
    | some code =>
      cases h
      exact .inl ⟨code, rfl⟩
    | none =>
      cases h
      exact .inr rfl

theorem perform_ne_timeout {b : Builtin} {a? : Option Int} {e : Stop}
    (h : b.perform a? = .error e) : e ≠ .timeout := by
  rcases error_of_perform h with ⟨code, rfl⟩ | rfl
  · exact Stop.noConfusion
  · exact Stop.noConfusion

theorem perform_ne_wrong {b : Builtin} {a? : Option Int} {e : Stop}
    (h : b.perform a? = .error e) : e ≠ .wrong := by
  rcases error_of_perform h with ⟨code, rfl⟩ | rfl
  · exact Stop.noConfusion
  · exact Stop.noConfusion

/-- `panic` has no result. -/
theorem ne_panic_of_perform {b : Builtin} {a? : Option Int} {text : String}
    (h : b.perform a? = .ok text) : b ≠ .panic := by
  rintro rfl
  cases a? <;> cases h

end Builtin

end ClosureML
