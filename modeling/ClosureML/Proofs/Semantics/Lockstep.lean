import ClosureML.Proofs.Semantics.Computation

/-!
# Computations in lockstep

Two computations that print the same, give values that belong together, and stop for the same
reason, whatever the bound on the depth of calls. This says more than a simulation: neither goes
wrong where the other does not, and no call is nested deeper in one than in the other.

* `Result.Same R o o'`: the results are the same up to a relation between values;
* `Parallels K R x y`: for bounds up to `K`, so are the results of two computations.

Main statements: `Parallels.bind`, `Parallels.later` and `Parallels.simulates`.
-/

namespace ClosureML

variable {α β γ δ : Type}

/-- **The same result**: values that belong together, or the same reason to stop; and the same
    output. -/
inductive Result.Same (R : α → β → Prop) : Result α → Result β → Prop where
  | value {a : α} {b : β} {out : String} (h : R a b) : Result.Same R (.ok a out) (.ok b out)
  | stop {e : Stop} {out : String} : Result.Same R (.error e out) (.error e out)

/-- The same result for want of a larger bound, or results that agree. -/
theorem Result.Same.timesOut_or_agree {R : α → β → Prop} {o : Result α} {o' : Result β}
    (h : Result.Same R o o') : (o.TimesOut ∧ o'.TimesOut) ∨ Computation.Agree R o o' := by
  cases h with
  | value h => exact .inr (.value h)
  | @stop e out =>
    by_cases he : e = .timeout
    · subst he
      exact .inl ⟨⟨out, rfl⟩, ⟨out, rfl⟩⟩
    · exact .inr (.stop he)

namespace Computation

/-- For all bounds up to `K`, two computations have the same result. -/
def Parallels (K : Nat) (R : α → β → Prop) (x : Computation α) (y : Computation β) : Prop :=
  ∀ k ≤ K, ∀ out, Result.Same R (x.within k out) (y.within k out)

namespace Parallels

variable {K : Nat} {R : α → β → Prop} {S : γ → δ → Prop} {x : Computation α} {y : Computation β}

theorem pure {a : α} {b : β} (h : R a b) : Parallels K R (pure a) (pure b) := fun _ _ _ => .value h

theorem stop {e : Stop} : Parallels K R (Computation.stop e) (Computation.stop e) :=
  fun _ _ _ => .stop

theorem refl (x : Computation α) : Parallels K (fun a b => a = b) x x := by
  intro k _ out
  cases x.within k out with
  | ok a out' => exact .value rfl
  | error e out' => exact .stop

/-- Computations in a row run in lockstep when their parts do. -/
theorem bind {f : α → Computation γ} {g : β → Computation δ} (h : Parallels K R x y)
    (hf : ∀ a b, R a b → Parallels K S (f a) (g b)) : Parallels K S (x >>= f) (y >>= g) := by
  intro k hk out
  rw [within_bind, within_bind]
  have hsame := h k hk out
  generalize x.within k out = o, y.within k out = o' at hsame
  cases hsame with
  | value hab => exact hf _ _ hab k hk _
  | stop => exact .stop

/-- What both computations do the same is gone on from with the same value. -/
theorem bind_refl {f : α → Computation γ} {g : α → Computation δ} (x : Computation α)
    (hf : ∀ a, Parallels K S (f a) (g a)) : Parallels K S (x >>= f) (x >>= g) :=
  (refl x).bind fun a _ hab => hab ▸ hf a

/-- Calls run in lockstep when what is inside does for smaller bounds. -/
theorem later (h : ∀ J < K, Parallels J R x y) : Parallels K R x.later y.later := by
  intro k hk out
  cases k with
  | zero => exact .stop
  | succ k => exact h k hk k (Nat.le_refl k) out

/-- **What runs in lockstep simulates.** -/
theorem simulates (h : Parallels K R x y) : Simulates K R x y where
  backward k hk out := (h k hk out).timesOut_or_agree.imp_left And.right
  forward k hk out := (h k hk out).timesOut_or_agree.imp And.left fun hagree => ⟨k, hagree⟩

end Parallels

end Computation

end ClosureML
