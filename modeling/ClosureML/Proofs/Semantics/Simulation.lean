import ClosureML.Proofs.Semantics.Evaluation
import Mathlib.Data.List.Forall2

/-!
# Steps of a simulation

What evaluation does at operators, conditionals and lists of trees, it does on both sides of a pass
alike, as long as values that belong together are the same words.

* `Simulates.branch`, `Simulates.operate₁`, `Simulates.operate₂`, `Simulates.perform`: conditionals,
  operators and builtins;
* `Computation.all`: computations one after the other;
* `CallsSimulate V K`: calls of functions that belong together simulate each other.

Main statements: `Simulates.all` and `simulates_evaluateAll`.
-/

namespace ClosureML

namespace Computation

/-! ## 1. Words -/

namespace Simulates

variable {α β : Type} {K : Nat} {R : α → β → Prop}

/-- What is there on the first side must be there on the second. -/
theorem orWrong {x? : Option α} {y? : Option β}
    (h : ∀ a, x? = some a → ∃ b, y? = some b ∧ R a b) :
    Simulates K R (Computation.orWrong x?) (Computation.orWrong y?) := by
  cases x? with
  | none => exact .wrong
  | some a =>
    obtain ⟨b, rfl, hab⟩ := h a rfl
    exact .pure hab

/-- The same result of an operator, which is never for want of a larger bound. -/
theorem orStop {x : Except Stop α} (h : ∀ e, x = .error e → e ≠ .timeout) :
    Simulates K (fun a b => a = b) (Computation.orStop x) (Computation.orStop x) := by
  cases x with
  | ok a => exact .pure rfl
  | error e => exact .stop (h e rfl)

variable {γ δ : Type} {S : γ → δ → Prop} {word? : α → Option Int} {word?' : β → Option Int}

/-- Conditionals. -/
theorem branch {x : Computation α} {y : Computation β} {t e : Computation γ}
    {t' e' : Computation δ} (hword : ∀ a b, R a b → word? a = word?' b)
    (hx : Simulates K R x y) (ht : Simulates K S t t') (he : Simulates K S e e') :
    Simulates K S
      (do
        let v ← x
        let n ← Computation.orWrong (word? v)
        if n = 0 then e else t)
      (do
        let v ← y
        let n ← Computation.orWrong (word?' v)
        if n = 0 then e' else t') := by
  refine hx.bind fun v w hvw => ?_
  have hn : Simulates K (fun a b => a = b) (Computation.orWrong (word? v))
      (Computation.orWrong (word?' w)) := by
    rw [hword v w hvw]
    exact .orWrong fun n hn => ⟨n, hn, rfl⟩
  refine hn.bind fun n n' hnn => ?_
  subst hnn
  split
  · exact he
  · exact ht

variable {wordOf : Int → γ} {wordOf' : Int → δ}

/-- Operators between two operands. -/
theorem operate₂ {x₁ x₂ : Computation α} {y₁ y₂ : Computation β}
    (hword : ∀ a b, R a b → word? a = word?' b) (hof : ∀ n, S (wordOf n) (wordOf' n))
    (o : BinaryOperator) (h₁ : Simulates K R x₁ y₁) (h₂ : Simulates K R x₂ y₂) :
    Simulates K S
      (do
        let v ← x₁
        let w ← x₂
        let n ← Computation.orStop (o.operate (word? v) (word? w))
        Pure.pure (wordOf n))
      (do
        let v ← y₁
        let w ← y₂
        let n ← Computation.orStop (o.operate (word?' v) (word?' w))
        Pure.pure (wordOf' n)) := by
  refine h₁.bind fun v v' hv => h₂.bind fun w w' hw => ?_
  rw [hword v v' hv, hword w w' hw]
  refine (orStop fun e he => BinaryOperator.operate_ne_timeout he).bind fun n n' hn => ?_
  subst hn
  exact .pure (hof n)

/-- Operators before one operand. -/
theorem operate₁ {x : Computation α} {y : Computation β}
    (hword : ∀ a b, R a b → word? a = word?' b) (hof : ∀ n, S (wordOf n) (wordOf' n))
    (o : UnaryOperator) (h : Simulates K R x y) :
    Simulates K S
      (do
        let v ← x
        let n ← Computation.orStop (o.operate (word? v))
        Pure.pure (wordOf n))
      (do
        let v ← y
        let n ← Computation.orStop (o.operate (word?' v))
        Pure.pure (wordOf' n)) := by
  refine h.bind fun v v' hv => ?_
  rw [hword v v' hv]
  refine (orStop fun e he => UnaryOperator.operate_ne_timeout he).bind fun n n' hn => ?_
  subst hn
  exact .pure (hof n)

/-- Calls of builtins. -/
theorem perform {v : Option Int} {r : γ} {r' : δ} (hr : S r r') (b : Builtin) :
    Simulates K S
      (do
        let text ← Computation.orStop (b.perform v)
        Computation.print text
        Pure.pure r)
      (do
        let text ← Computation.orStop (b.perform v)
        Computation.print text
        Pure.pure r') := by
  refine (orStop fun e he => Builtin.perform_ne_timeout he).bind fun text text' htext => ?_
  subst htext
  exact (Simulates.print (R := fun _ _ => True) trivial text).bind fun _ _ _ => .pure hr

end Simulates

/-! ## 2. One after the other -/

variable {α β : Type}

/-- Computations one after the other, and their values. -/
def all : List (Computation α) → Computation (List α)
  | [] => pure []
  | x :: xs => do
    let a ← x
    let as ← all xs
    pure (a :: as)

theorem Simulates.all {K : Nat} {R : α → β → Prop} {xs : List (Computation α)}
    {ys : List (Computation β)} (h : List.Forall₂ (Simulates K R) xs ys) :
    Simulates K (List.Forall₂ R) (all xs) (all ys) := by
  induction h with
  | nil => exact .pure .nil
  | cons hx _ ih => exact hx.bind fun a b hab => ih.bind fun as bs has => .pure (.cons hab has)

end Computation

open ClosureML.Computation

/-- The values of trees are those of one after the other. -/
theorem evaluateAll_eq (ns : List Node) (env : Environment) :
    Node.evaluateAll ns env = all (ns.map fun n => n.evaluate env) := by
  induction ns with
  | nil => rfl
  | cons n ns ih => rw [evaluateAll_cons, ih, List.map_cons, all]

/-- Lists of trees that belong together. -/
theorem simulates_evaluateAll {K : Nat} {V : Value → Value → Prop} {ns ns' : List Node}
    {env env' : Environment}
    (h : List.Forall₂ (fun n n' : Node => Simulates K V (n.evaluate env) (n'.evaluate env'))
      ns ns') :
    Simulates K (List.Forall₂ V) (Node.evaluateAll ns env) (Node.evaluateAll ns' env') := by
  rw [evaluateAll_eq, evaluateAll_eq]
  refine .all ?_
  rw [List.forall₂_map_left_iff, List.forall₂_map_right_iff]
  exact h

/-- The last of values that belong together. -/
theorem forall₂_getLastD {α β : Type} {R : α → β → Prop} {as : List α} {bs : List β} {a : α} {b : β}
    (h : List.Forall₂ R as bs) (hab : R a b) : R (as.getLastD a) (bs.getLastD b) := by
  induction h generalizing a b with
  | nil => exact hab
  | cons h _ ih =>
    rw [List.getLastD_cons, List.getLastD_cons]
    exact ih h

theorem forall₂_getElem? {α β : Type} {R : α → β → Prop} {as : List α} {bs : List β} {a : α}
    {i : Nat} (h : List.Forall₂ R as bs) (ha : as[i]? = some a) : ∃ b, bs[i]? = some b ∧ R a b := by
  induction h generalizing i with
  | nil => cases ha
  | cons h _ ih =>
    cases i with
    | zero =>
      cases ha
      exact ⟨_, rfl, h⟩
    | succ i => exact ih ha

/-! ## 3. Calls -/

/-- Up to a bound, calls of functions that belong together simulate each other. -/
def CallsSimulate (V : Value → Value → Prop) (K : Nat) : Prop :=
  ∀ f f' v v', V f f' → V v v' → Simulates K V (call f v) (call f' v')

end ClosureML
