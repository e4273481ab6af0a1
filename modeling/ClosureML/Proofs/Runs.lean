/-!
# Runs of the passes

A pass reads and changes a state, and may end with an error. What it does is said by two relations,
which the steps of a pass are taken apart with.

* `Runs x s a s'`: from the state `s`, the pass `x` gives `a` and leaves the state `s'`;
* `Fails x s e`: from the state `s`, the pass `x` ends with the error `e`;
* `FailsFrom p x s`: from the state `s`, the errors of `x` have the property `p`;
* `FailsOnly p x`: whatever the state, they have it;
* `Succeeds p x`: whatever the state, `x` gives something that has the property `p`;
* `Keeps I x`: from states that have the property `I`, `x` leaves such states.

Main statements: `runs_bind`, `fails_bind` and `Keeps.bind`.
-/

namespace ClosureML

variable {ε σ α β : Type}

/-! ## 1. Results and errors -/

/-- From the state `s`, `x` gives `a` and leaves the state `s'`. -/
def Runs (x : EStateM ε σ α) (s : σ) (a : α) (s' : σ) : Prop := x.run s = .ok a s'

/-- From the state `s`, `x` ends with the error `e`. -/
def Fails (x : EStateM ε σ α) (s : σ) (e : ε) : Prop := ∃ s', x.run s = .error e s'

section

variable {x : EStateM ε σ α} {f : α → EStateM ε σ β} {s s' : σ} {a a' : α} {b : β} {e e' : ε}

/-- Either a pass gives something, or it ends with an error. -/
theorem runs_or_fails (x : EStateM ε σ α) (s : σ) : (∃ a s', Runs x s a s') ∨ ∃ e, Fails x s e := by
  unfold Runs Fails
  cases h : x.run s with
  | ok a s' => exact .inl ⟨a, s', rfl⟩
  | error e s' => exact .inr ⟨e, s', rfl⟩

theorem Runs.unique {s₁ s₂ : σ} (h : Runs x s a s₁) (h' : Runs x s a' s₂) : a = a' ∧ s₁ = s₂ := by
  have : EStateM.Result.ok a s₁ = (.ok a' s₂ : EStateM.Result ε σ α) := h.symm.trans h'
  exact EStateM.Result.ok.inj this

theorem Runs.not_fails (h : Runs x s a s') : ¬ Fails x s e := by
  rintro ⟨s'', h'⟩
  rw [Runs, h'] at h
  cases h

@[simp] theorem runs_pure : Runs (pure a' : EStateM ε σ α) s a s' ↔ a' = a ∧ s = s' :=
  ⟨EStateM.Result.ok.inj, fun h => h.1 ▸ h.2 ▸ rfl⟩

/-- **Two steps give something** when the first does, and the second does behind it. -/
@[simp] theorem runs_bind :
    Runs (x >>= f) s b s' ↔ ∃ a s₁, Runs x s a s₁ ∧ Runs (f a) s₁ b s' := by
  unfold Runs
  rw [EStateM.run_bind]
  cases h : x.run s with
  | ok a s₁ =>
    constructor
    · exact fun h' => ⟨a, s₁, rfl, h'⟩
    · rintro ⟨_, _, h₁, h'⟩
      cases h₁
      exact h'
  | error e s₁ =>
    constructor
    · exact fun h' => nomatch h'
    · rintro ⟨_, _, h₁, -⟩
      cases h₁

@[simp] theorem runs_throw : ¬ Runs (throw e : EStateM ε σ α) s a s' := fun h => nomatch h

@[simp] theorem runs_get {t : σ} : Runs (get : EStateM ε σ σ) s t s' ↔ s = t ∧ s = s' :=
  ⟨EStateM.Result.ok.inj, fun h => by rw [← h.1, ← h.2]; rfl⟩

@[simp] theorem runs_set {t : σ} {u : PUnit} :
    Runs (set t : EStateM ε σ PUnit) s u s' ↔ t = s' :=
  ⟨fun h => (EStateM.Result.ok.inj h).2, fun h => h ▸ rfl⟩

@[simp] theorem runs_modify {f : σ → σ} {u : PUnit} :
    Runs (modify f : EStateM ε σ PUnit) s u s' ↔ f s = s' :=
  ⟨fun h => (EStateM.Result.ok.inj h).2, fun h => h ▸ rfl⟩

@[simp] theorem runs_modifyGet {f : σ → α × σ} :
    Runs (modifyGet f : EStateM ε σ α) s a s' ↔ (f s).1 = a ∧ (f s).2 = s' :=
  ⟨EStateM.Result.ok.inj, fun h => h.1 ▸ h.2 ▸ rfl⟩

@[simp] theorem fails_pure : ¬ Fails (pure a : EStateM ε σ α) s e := fun ⟨_, h⟩ => nomatch h

/-- **Two steps end with an error** when the first does, or the second does behind it. -/
@[simp] theorem fails_bind :
    Fails (x >>= f) s e ↔ Fails x s e ∨ ∃ a s₁, Runs x s a s₁ ∧ Fails (f a) s₁ e := by
  unfold Runs Fails
  rw [EStateM.run_bind]
  cases h : x.run s with
  | ok a s₁ =>
    constructor
    · exact fun h' => .inr ⟨a, s₁, rfl, h'⟩
    · rintro (⟨_, h₁⟩ | ⟨_, _, h₁, h'⟩)
      · cases h₁
      · cases h₁
        exact h'
  | error e' s₁ =>
    constructor
    · rintro ⟨s'', h'⟩
      cases h'
      exact .inl ⟨s₁, rfl⟩
    · rintro (⟨_, h₁⟩ | ⟨_, _, h₁, -⟩)
      · cases h₁
        exact ⟨s₁, rfl⟩
      · cases h₁

/-- Two steps end with the error of the first. -/
theorem Fails.bind (h : Fails x s e) : Fails (x >>= f) s e := fails_bind.2 (.inl h)

/-- Behind a step that gives something, two steps end with the error of the second. -/
theorem Runs.fails_behind {s₁ : σ} (hx : Runs x s a s₁) (hf : Fails (f a) s₁ e) :
    Fails (x >>= f) s e := fails_bind.2 (.inr ⟨a, s₁, hx, hf⟩)

@[simp] theorem fails_throw : Fails (throw e' : EStateM ε σ α) s e ↔ e' = e :=
  ⟨fun ⟨_, h⟩ => (EStateM.Result.error.inj h).1, fun h => ⟨s, h ▸ rfl⟩⟩

@[simp] theorem fails_get : ¬ Fails (get : EStateM ε σ σ) s e := fun ⟨_, h⟩ => nomatch h

@[simp] theorem fails_set {t : σ} : ¬ Fails (set t : EStateM ε σ PUnit) s e :=
  fun ⟨_, h⟩ => nomatch h

@[simp] theorem fails_modify {f : σ → σ} : ¬ Fails (modify f : EStateM ε σ PUnit) s e :=
  fun ⟨_, h⟩ => nomatch h

@[simp] theorem fails_modifyGet {f : σ → α × σ} : ¬ Fails (modifyGet f : EStateM ε σ α) s e :=
  fun ⟨_, h⟩ => nomatch h

end

/-! ## 2. Errors of a kind -/

/-- All errors that a pass ends with have a property. -/
def FailsOnly (p : ε → Prop) (x : EStateM ε σ α) : Prop := ∀ s e, Fails x s e → p e

namespace FailsOnly

variable {p : ε → Prop} {x : EStateM ε σ α} {f : α → EStateM ε σ β}

theorem pure (a : α) : FailsOnly p (pure a : EStateM ε σ α) := fun _ _ h => absurd h fails_pure

theorem throw {e : ε} (h : p e) : FailsOnly p (throw e : EStateM ε σ α) := fun _ _ h' =>
  fails_throw.1 h' ▸ h

theorem get : FailsOnly p (get : EStateM ε σ σ) := fun _ _ h => absurd h fails_get

theorem set (t : σ) : FailsOnly p (set t : EStateM ε σ PUnit) := fun _ _ h => absurd h fails_set

theorem modifyGet (f : σ → α × σ) : FailsOnly p (modifyGet f : EStateM ε σ α) := fun _ _ h =>
  absurd h fails_modifyGet

theorem bind (hx : FailsOnly p x) (hf : ∀ a, FailsOnly p (f a)) : FailsOnly p (x >>= f) := by
  intro s e h
  rcases fails_bind.1 h with h | ⟨a, s₁, -, h⟩
  · exact hx s e h
  · exact hf a s₁ e h

end FailsOnly

/-- All errors that a pass ends with from a state have a property. -/
def FailsFrom (p : ε → Prop) (x : EStateM ε σ α) (s : σ) : Prop := ∀ e, Fails x s e → p e

namespace FailsFrom

variable {p : ε → Prop} {x : EStateM ε σ α} {f : α → EStateM ε σ β} {s : σ}

theorem pure (a : α) : FailsFrom p (pure a : EStateM ε σ α) s := fun _ h => absurd h fails_pure

theorem throw {e : ε} (h : p e) : FailsFrom p (throw e : EStateM ε σ α) s := fun _ h' =>
  fails_throw.1 h' ▸ h

theorem bind (hx : FailsFrom p x s) (hf : ∀ a s₁, Runs x s a s₁ → FailsFrom p (f a) s₁) :
    FailsFrom p (x >>= f) s := by
  intro e h
  rcases fails_bind.1 h with h | ⟨a, s₁, hrun, h⟩
  · exact hx e h
  · exact hf a s₁ hrun e h

end FailsFrom

theorem FailsOnly.from {p : ε → Prop} {x : EStateM ε σ α} (h : FailsOnly p x) (s : σ) :
    FailsFrom p x s := h s

/-! ## 3. Passes that succeed -/

/-- From every state, a pass gives something with a property. -/
def Succeeds (p : α → Prop) (x : EStateM ε σ α) : Prop := ∀ s, ∃ a s', Runs x s a s' ∧ p a

namespace Succeeds

variable {p : α → Prop} {q : β → Prop} {x : EStateM ε σ α} {f : α → EStateM ε σ β}

theorem pure {a : α} (h : p a) : Succeeds p (pure a : EStateM ε σ α) := fun s =>
  ⟨a, s, runs_pure.2 ⟨rfl, rfl⟩, h⟩

theorem modifyGet {f : σ → α × σ} (h : ∀ s, p (f s).1) : Succeeds p (modifyGet f : EStateM ε σ α) :=
  fun s => ⟨(f s).1, (f s).2, runs_modifyGet.2 ⟨rfl, rfl⟩, h s⟩

/-- In a row, a pass succeeds when the second step does behind the first. -/
theorem bind (hx : Succeeds p x) (hf : ∀ a, p a → Succeeds q (f a)) : Succeeds q (x >>= f) := by
  intro s
  obtain ⟨a, s₁, hrun, ha⟩ := hx s
  obtain ⟨b, s', hrun', hb⟩ := hf a ha s₁
  exact ⟨b, s', runs_bind.2 ⟨a, s₁, hrun, hrun'⟩, hb⟩

end Succeeds

/-! ## 4. What passes keep -/

/-- From states that have a property, a pass leaves such states, whatever it gives. -/
def Keeps (I : σ → Prop) (x : EStateM ε σ α) : Prop := ∀ s a s', I s → Runs x s a s' → I s'

namespace Keeps

variable {I : σ → Prop} {x : EStateM ε σ α} {f : α → EStateM ε σ β} {s s' : σ} {a : α}

theorem run (h : Keeps I x) (hs : I s) (hrun : Runs x s a s') : I s' := h s a s' hs hrun

theorem pure : Keeps I (pure a : EStateM ε σ α) := fun _ _ _ hs hrun =>
  (runs_pure.1 hrun).2 ▸ hs

theorem throw {e : ε} : Keeps I (throw e : EStateM ε σ α) := fun _ _ _ _ hrun =>
  absurd hrun runs_throw

theorem get : Keeps I (get : EStateM ε σ σ) := fun _ _ _ hs hrun => (runs_get.1 hrun).2 ▸ hs

theorem modifyGet {g : σ → α × σ} (h : ∀ s, I s → I (g s).2) :
    Keeps I (modifyGet g : EStateM ε σ α) := fun s _ _ hs hrun => (runs_modifyGet.1 hrun).2 ▸ h s hs

theorem modify {g : σ → σ} (h : ∀ s, I s → I (g s)) : Keeps I (modify g : EStateM ε σ PUnit) :=
  modifyGet h

/-- **In a row**, two steps keep what each of them keeps. -/
theorem bind (hx : Keeps I x) (hf : ∀ a, Keeps I (f a)) : Keeps I (x >>= f) := by
  intro s b s' hs hrun
  obtain ⟨a, s₁, hrun, hrun'⟩ := runs_bind.1 hrun
  exact (hf a).run (hx.run hs hrun) hrun'

end Keeps

/-! ## 5. Passes without a state -/

/-- **Two steps give something** when the first does, and the second does behind it. -/
theorem bind_ok_iff {x : Except ε α} {f : α → Except ε β} {b : β} :
    x >>= f = .ok b ↔ ∃ a, x = .ok a ∧ f a = .ok b := by
  cases x with
  | ok a => exact ⟨fun h => ⟨a, rfl, h⟩, fun ⟨_, h, h'⟩ => Except.ok.inj h ▸ h'⟩
  | error e => exact ⟨fun h => (nomatch h), fun ⟨_, h, _⟩ => (nomatch h)⟩

/-- **Two steps end with an error** when the first does, or the second does behind it. -/
theorem bind_error_iff {x : Except ε α} {f : α → Except ε β} {e : ε} :
    x >>= f = .error e ↔ x = .error e ∨ ∃ a, x = .ok a ∧ f a = .error e := by
  cases x with
  | ok a =>
    refine ⟨fun h => .inr ⟨a, rfl, h⟩, ?_⟩
    rintro (h | ⟨b, h, h'⟩)
    · cases h
    · cases h
      exact h'
  | error e' =>
    refine ⟨fun h => .inl (congrArg Except.error (Except.error.inj h)), ?_⟩
    rintro (h | ⟨b, h, -⟩)
    · cases h
      rfl
    · cases h

end ClosureML
