/-!
# Computations

What an evaluation does is given for every bound on the depth of its calls: it prints, and then
gives a value or stops. A computation whose bound is too small stops for this reason; with a larger
bound it never does something else than with a smaller one that was enough.

* `Stop` are the reasons to end without a value;
* `Computation` are the computations, `later` is one inside a call;
* `Delays y z`: `y` does what `z` does, with calls nested deeper;
* `Simulates K R x y`: for bounds up to `K`, `y` does what `x` does, and `R` relates the values.
  About an `x` that goes wrong nothing is said;
* `Ensures k P x`: within the bound `k`, `x` does not go wrong, and its value has the property `P`.

Main statements: `Simulates.bind`, `Simulates.later`, `Simulates.delays` and `Ensures.bind`.
-/

namespace ClosureML

/-! ## 1. Results -/

/-- Why an evaluation ends without a value: the program ends itself with an exit code; an operator
    on integers has no result; a value that is no word stands where equality or an exit code needs
    one; something is done that typing rules out; calls are nested deeper than the bound. -/
inductive Stop where
  | panic (code : Int)
  | fault
  | mismatch
  | wrong
  | timeout
  deriving DecidableEq, Repr

/-- The result of an evaluation, with all that was printed by then. -/
abbrev Result (α : Type) := EStateM.Result Stop String α

/-- The bound was too small. -/
def Result.TimesOut {α : Type} (o : Result α) : Prop := ∃ out, o = .error .timeout out

theorem Result.not_timesOut_ok {α : Type} {a : α} {out : String} :
    ¬ TimesOut (.ok a out : Result α) := fun ⟨_, h⟩ => nomatch h

theorem Result.timesOut_error {α : Type} {e : Stop} {out : String} :
    TimesOut (.error e out : Result α) ↔ e = .timeout :=
  ⟨fun ⟨_, h⟩ => (EStateM.Result.error.inj h).1, fun h => ⟨out, h ▸ rfl⟩⟩

/-- What is done with a value that was reached. -/
def Result.andThen {α β : Type} (o : Result α) (f : α → String → Result β) : Result β :=
  match o with
  | .ok a out => f a out
  | .error e out => .error e out

/-- `y` does what `x` does, unless the bound of `x` was too small. -/
def Below {α : Type} (x y : EStateM Stop String α) : Prop :=
  ∀ out, Result.TimesOut (x.run out) ∨ y.run out = x.run out

namespace Below

variable {α β : Type} {x y : EStateM Stop String α}

theorem refl (x : EStateM Stop String α) : Below x x := fun _ => .inr rfl

theorem timeout (y : EStateM Stop String α) : Below (throw .timeout) y := fun out => .inl ⟨out, rfl⟩

/-- In a row, the parts are compared one by one. -/
theorem bind {f g : α → EStateM Stop String β} (h : Below x y) (hf : ∀ a, Below (f a) (g a)) :
    Below (x >>= f) (y >>= g) := by
  intro out
  have hx := h out
  rw [EStateM.run_bind, EStateM.run_bind]
  cases hk : x.run out with
  | ok a out' =>
    have hy : y.run out = .ok a out' := (hx.resolve_left (hk ▸ Result.not_timesOut_ok)).trans hk
    rw [hy]
    exact hf a out'
  | error e out' =>
    rcases hx with hx | hx
    · rw [hk, Result.timesOut_error] at hx
      exact .inl (Result.timesOut_error.2 hx)
    · rw [hx, hk]
      exact .inr rfl

end Below

/-- Goes on with a result, or stops. -/
def runOrStop {α : Type} : Except Stop α → EStateM Stop String α
  | .ok a => pure a
  | .error e => throw e

/-- Goes on with what is there, or goes wrong. -/
def runOrWrong {α : Type} : Option α → EStateM Stop String α
  | some a => pure a
  | none => throw .wrong

/-- A computation: what it does for every bound on the depth of calls, where a larger bound changes
    nothing once a bound was enough. -/
structure Computation (α : Type) where
  run : Nat → EStateM Stop String α
  mono : ∀ {k j : Nat}, k ≤ j → Below (run k) (run j)

namespace Computation

variable {α β γ : Type}

@[ext] theorem ext {x y : Computation α} (h : ∀ k, x.run k = y.run k) : x = y := by
  cases x
  cases y
  congr
  exact funext h

/-- What a computation with a bound does, from some output on. -/
def within (x : Computation α) (k : Nat) (out : String) : Result α := (x.run k).run out

/-- A larger bound changes nothing once a bound was enough. -/
theorem within_of_le (x : Computation α) {k j : Nat} (h : k ≤ j) {out : String}
    (hk : ¬ (x.within k out).TimesOut) : x.within j out = x.within k out :=
  (x.mono h out).resolve_left hk

/-! ## 2. Putting computations together -/

/-- Ends with a value. -/
protected def pure (a : α) : Computation α := ⟨fun _ => Pure.pure a, fun _ => .refl _⟩

/-- Two computations, one after the other. -/
protected def bind (x : Computation α) (f : α → Computation β) : Computation β where
  run k := x.run k >>= fun a => (f a).run k
  mono h := (x.mono h).bind fun a => (f a).mono h

instance : Monad Computation where
  pure := Computation.pure
  bind := Computation.bind

/-- Ends without a value. -/
def stop (e : Stop) : Computation α := ⟨fun _ => throw e, fun _ => .refl _⟩

/-- Goes on with a result, or stops. -/
def orStop (x : Except Stop α) : Computation α := ⟨fun _ => runOrStop x, fun _ => .refl _⟩

/-- Goes on with what is there, or goes wrong. -/
def orWrong (x? : Option α) : Computation α := ⟨fun _ => runOrWrong x?, fun _ => .refl _⟩

/-- Prints. -/
def print (text : String) : Computation Unit :=
  ⟨fun _ => modify (· ++ text), fun _ => .refl _⟩

/-- The computation inside a call. -/
def later (x : Computation α) : Computation α where
  run
    | 0 => throw .timeout
    | k + 1 => x.run k
  mono {k j} h := by
    cases k with
    | zero => exact .timeout _
    | succ k =>
      obtain ⟨j, rfl⟩ : ∃ i, j = i + 1 := ⟨j - 1, by omega⟩
      exact x.mono (Nat.le_of_succ_le_succ h)

@[simp] theorem pure_bind (a : α) (f : α → Computation β) : (pure a >>= f) = f a := rfl

@[simp] theorem stop_bind (e : Stop) (f : α → Computation β) : (stop e >>= f) = stop e := rfl

@[simp] theorem orStop_ok (a : α) : orStop (.ok a) = pure a := rfl

@[simp] theorem orStop_error (e : Stop) : (orStop (.error e) : Computation α) = stop e := rfl

@[simp] theorem orWrong_some (a : α) : orWrong (some a) = pure a := rfl

@[simp] theorem orWrong_none : (orWrong none : Computation α) = stop .wrong := rfl

@[simp] theorem bind_bind (x : Computation α) (f : α → Computation β) (g : β → Computation γ) :
    (x >>= f >>= g) = (x >>= fun a => f a >>= g) :=
  ext fun k => LawfulMonad.bind_assoc (x.run k) (fun a => (f a).run k) fun b => (g b).run k

theorem within_later_succ (x : Computation α) (k : Nat) (out : String) :
    x.later.within (k + 1) out = x.within k out := rfl

/-- What two computations in a row do. -/
theorem within_bind (x : Computation α) (f : α → Computation β) (k : Nat) (out : String) :
    (x >>= f).within k out = (x.within k out).andThen fun a out' => (f a).within k out' := by
  show (x.run k >>= fun a => (f a).run k).run out = _
  rw [EStateM.run_bind, within]
  cases (x.run k).run out <;> rfl

/-! ## 3. The same with deeper calls -/

/-- `y` does what `z` does, with calls nested deeper. -/
structure Delays (y z : Computation α) : Prop where
  timesOut_or : ∀ k out, (y.within k out).TimesOut ∨ y.within k out = z.within k out
  reaches : ∀ k out, (z.within k out).TimesOut ∨ ∃ j, y.within j out = z.within k out

namespace Delays

theorem refl (x : Computation α) : Delays x x := ⟨fun _ _ => .inr rfl, fun k _ => .inr ⟨k, rfl⟩⟩

theorem trans {x y z : Computation α} (h : Delays x y) (h' : Delays y z) : Delays x z where
  timesOut_or k out := by
    rcases h.timesOut_or k out with hx | hx
    · exact .inl hx
    · rw [hx]
      exact h'.timesOut_or k out
  reaches k out := by
    rcases h'.reaches k out with hz | ⟨j, hj⟩
    · exact .inl hz
    · rcases h.reaches j out with hy | ⟨i, hi⟩
      · exact .inl (hj ▸ hy)
      · exact .inr ⟨i, hi.trans hj⟩

/-- A computation inside a call does what it does outside. -/
theorem later (x : Computation α) : Delays x.later x where
  timesOut_or k out := by
    cases k with
    | zero => exact .inl ⟨out, rfl⟩
    | succ k =>
      rw [within_later_succ]
      by_cases hk : (x.within k out).TimesOut
      · exact .inl hk
      · exact .inr (x.within_of_le (Nat.le_succ k) hk).symm
  reaches k out := .inr ⟨k + 1, rfl⟩

/-- What follows a delayed computation is delayed. -/
theorem bind {y z : Computation α} {f g : α → Computation β} (h : Delays y z)
    (hf : ∀ a, Delays (f a) (g a)) : Delays (y >>= f) (z >>= g) where
  timesOut_or k out := by
    rw [within_bind, within_bind]
    rcases h.timesOut_or k out with hy | hy
    · obtain ⟨out', hy⟩ := hy
      rw [hy]
      exact .inl ⟨out', rfl⟩
    · rw [hy]
      cases z.within k out with
      | ok a out' => exact (hf a).timesOut_or k out'
      | error e out' => exact .inr rfl
  reaches k out := by
    rw [within_bind]
    rcases h.reaches k out with hz | ⟨j, hj⟩
    · obtain ⟨out', hz⟩ := hz
      rw [hz]
      exact .inl ⟨out', rfl⟩
    · cases hz : z.within k out with
      | ok a out' =>
        rw [hz] at hj
        rcases (hf a).reaches k out' with ha | ⟨i, hi⟩
        · exact .inl ha
        · by_cases hf' : ((f a).within i out').TimesOut
          · left
            show ((g a).within k out').TimesOut
            rw [← hi]
            exact hf'
          · refine .inr ⟨max j i, ?_⟩
            rw [within_bind, y.within_of_le (Nat.le_max_left j i) (hj ▸ Result.not_timesOut_ok), hj]
            exact ((f a).within_of_le (Nat.le_max_right j i) hf').trans hi
      | error e out' =>
        refine .inr ⟨j, ?_⟩
        rw [within_bind, hj, hz]
        rfl

end Delays

/-! ## 4. Simulation -/

/-- The second result is what the first one is, up to a relation between values; about a first
    result that is wrong nothing is said. -/
inductive Agree (R : α → β → Prop) : Result α → Result β → Prop where
  | value {a : α} {b : β} {out : String} (h : R a b) : Agree R (.ok a out) (.ok b out)
  | stop {e : Stop} {out : String} (h : e ≠ .timeout) : Agree R (.error e out) (.error e out)
  | wrong {out : String} {o : Result β} : Agree R (.error .wrong out) o

namespace Agree

variable {R : α → β → Prop} {o : Result α}

/-- Agreement with what a bound gives is agreement with what every larger bound gives. -/
theorem within_of_le {y : Computation β} {k j : Nat} {out : String} (hkj : k ≤ j)
    (h : Agree R o (y.within k out)) : Agree R o (y.within j out) := by
  by_cases hy : (y.within k out).TimesOut
  · obtain ⟨out', hy⟩ := hy
    rw [hy] at h
    cases h with
    | stop h => exact absurd rfl h
    | wrong => exact .wrong
  · rwa [y.within_of_le hkj hy]

end Agree

/-- **Simulation**: for all bounds up to `K`, what `y` does agrees with what `x` does, and `y` ends
    when `x` does, perhaps with a larger bound. -/
structure Simulates (K : Nat) (R : α → β → Prop) (x : Computation α) (y : Computation β) :
    Prop where
  backward : ∀ k ≤ K, ∀ out, (y.within k out).TimesOut ∨ Agree R (x.within k out) (y.within k out)
  forward : ∀ k ≤ K, ∀ out,
    (x.within k out).TimesOut ∨ ∃ j, Agree R (x.within k out) (y.within j out)

namespace Simulates

variable {K : Nat} {R : α → β → Prop} {x : Computation α} {y z : Computation β}

theorem pure {a : α} {b : β} (h : R a b) : Simulates K R (pure a) (pure b) :=
  ⟨fun _ _ _ => .inr (.value h), fun k _ _ => .inr ⟨k, .value h⟩⟩

theorem stop {e : Stop} (h : e ≠ .timeout) :
    Simulates K R (Computation.stop e) (Computation.stop e) :=
  ⟨fun _ _ _ => .inr (.stop h), fun k _ _ => .inr ⟨k, .stop h⟩⟩

theorem wrong : Simulates K R (Computation.stop .wrong) y :=
  ⟨fun _ _ _ => .inr .wrong, fun k _ _ => .inr ⟨k, .wrong⟩⟩

theorem print {R : Unit → Unit → Prop} (h : R () ()) (text : String) :
    Simulates K R (Computation.print text) (Computation.print text) :=
  ⟨fun _ _ _ => .inr (.value h), fun k _ _ => .inr ⟨k, .value h⟩⟩

/-- Computations in a row simulate each other when their parts do. -/
theorem bind {γ δ : Type} {S : γ → δ → Prop} {f : α → Computation γ} {g : β → Computation δ}
    (h : Simulates K R x y) (hf : ∀ a b, R a b → Simulates K S (f a) (g b)) :
    Simulates K S (x >>= f) (y >>= g) where
  backward k hk out := by
    rw [within_bind, within_bind]
    rcases h.backward k hk out with ⟨out', hy⟩ | hagree
    · rw [hy]
      exact .inl ⟨out', rfl⟩
    · generalize x.within k out = o, y.within k out = o' at hagree
      cases hagree with
      | value hab => exact (hf _ _ hab).backward k hk _
      | stop he => exact .inr (.stop he)
      | wrong => exact .inr .wrong
  forward k hk out := by
    rw [within_bind]
    rcases h.forward k hk out with ⟨out', hx⟩ | ⟨j, hagree⟩
    · rw [hx]
      exact .inl ⟨out', rfl⟩
    · cases hx : x.within k out with
      | ok a out' =>
        rw [hx] at hagree
        cases hy : y.within j out with
        | ok b out'' =>
          rw [hy] at hagree
          cases hagree with
          | value hab =>
            rcases (hf a b hab).forward k hk out' with ha | ⟨i, hi⟩
            · exact .inl ha
            · refine .inr ⟨max j i, ?_⟩
              rw [within_bind, y.within_of_le (Nat.le_max_left j i) (hy ▸ Result.not_timesOut_ok),
                hy]
              exact hi.within_of_le (Nat.le_max_right j i)
        | error e out'' =>
          rw [hy] at hagree
          cases hagree
      | error e out' =>
        rw [hx] at hagree
        refine .inr ⟨j, ?_⟩
        rw [within_bind]
        cases hy : y.within j out with
        | ok b out'' =>
          rw [hy] at hagree
          cases hagree
          exact .wrong
        | error e' out'' =>
          rw [hy] at hagree
          cases hagree with
          | stop he => exact .stop he
          | wrong => exact .wrong

/-- Calls simulate each other when what is inside does for smaller bounds. -/
theorem later (h : ∀ J < K, Simulates J R x y) : Simulates K R x.later y.later where
  backward k hk out := by
    cases k with
    | zero => exact .inl ⟨out, rfl⟩
    | succ k => exact (h k hk).backward k (Nat.le_refl k) out
  forward k hk out := by
    cases k with
    | zero => exact .inl ⟨out, rfl⟩
    | succ k =>
      rcases (h k hk).forward k (Nat.le_refl k) out with hx | ⟨j, hj⟩
      · exact .inl hx
      · exact .inr ⟨j + 1, hj⟩

/-- **What simulates may nest its calls deeper.** -/
theorem delays (h : Simulates K R x z) (hy : Delays y z) : Simulates K R x y where
  backward k hk out := by
    rcases hy.timesOut_or k out with hy | hy
    · exact .inl hy
    · rw [hy]
      exact h.backward k hk out
  forward k hk out := by
    rcases h.forward k hk out with hx | ⟨j, hj⟩
    · exact .inl hx
    · rcases hy.reaches j out with ⟨out', hz⟩ | ⟨i, hi⟩
      · rw [hz] at hj
        refine .inr ⟨0, ?_⟩
        generalize x.within k out = o at hj
        cases hj with
        | stop h => exact absurd rfl h
        | wrong => exact .wrong
      · exact .inr ⟨i, hi ▸ hj⟩

end Simulates

/-! ## 5. What a computation ensures -/

/-- Within the bound, the computation does not go wrong, and its value has a property. -/
def Ensures (k : Nat) (P : α → Prop) (x : Computation α) : Prop :=
  ∀ out, (∀ a out', x.within k out = .ok a out' → P a) ∧
    ∀ out', x.within k out ≠ .error .wrong out'

namespace Ensures

variable {k : Nat} {P : α → Prop} {Q : β → Prop} {x : Computation α} {f : α → Computation β}

theorem pure {a : α} (h : P a) : Ensures k P (pure a) := by
  intro out
  refine ⟨fun b out' hb => ?_, fun out' h => nomatch h⟩
  cases hb
  exact h

theorem stop {e : Stop} (h : e ≠ .wrong) : Ensures k P (Computation.stop e) := by
  intro out
  refine ⟨fun b out' hb => (nomatch hb), fun out' he => ?_⟩
  cases he
  exact h rfl

theorem print {P : Unit → Prop} (h : P ()) (text : String) :
    Ensures k P (Computation.print text) :=
  fun _ => ⟨fun _ _ _ => h, fun _ h' => nomatch h'⟩

/-- Properties that are ensured one by one are ensured together. -/
theorem all {ι : Type} [Nonempty ι] {P : ι → α → Prop} (h : ∀ i, Ensures k (P i) x) :
    Ensures k (fun a => ∀ i, P i a) x := by
  intro out
  refine ⟨fun a out' ha i => (h i out).1 a out' ha, ?_⟩
  obtain ⟨i⟩ := ‹Nonempty ι›
  exact (h i out).2

/-- In a row, a computation ensures what the second part ensures behind the first. -/
theorem bind (hx : Ensures k P x) (hf : ∀ a, P a → Ensures k Q (f a)) : Ensures k Q (x >>= f) := by
  intro out
  rw [within_bind]
  have h := hx out
  cases hrun : x.within k out with
  | ok a out' => exact hf a (h.1 a out' hrun) out'
  | error e out' =>
    refine ⟨fun b out'' hb => (nomatch hb), fun out'' he => ?_⟩
    cases he
    exact h.2 out' hrun

/-- Inside a call, the bound is smaller. -/
theorem later (h : ∀ j < k, Ensures j P x) : Ensures k P x.later := by
  intro out
  cases k with
  | zero => exact ⟨fun _ _ ha => (nomatch ha), fun _ he => (nomatch he)⟩
  | succ k => exact h k (Nat.lt_succ_self k) out

end Ensures

end Computation

end ClosureML
