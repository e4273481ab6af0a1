import ClosureML.Proofs.Runs

/-!
# Two runs side by side

A pass is run twice, on inputs that are alike: the runs either both give something, and the results
are alike, or both end with an error, and the errors are alike. What it means to be alike is a
relation that is chosen for each use. A relation in which only some things are related, each to
itself, says of a single run that all that it makes is made of these things.

* `Together Q E x x'`: passes without a state;
* `InStep I Q E x x'`: passes from states that `I` relates, which leave such states;
* `Beside V W`: pairs whose components are alike.

Main statements: `Together.bind` and `InStep.bind`.
-/

namespace ClosureML

variable {ε σ α α' β β' : Type}

/-- Pairs that are alike: `V` relates the first components, `W` the second ones. -/
def Beside (V : α → α' → Prop) (W : β → β' → Prop) : α × β → α' × β' → Prop
  | (a, b), (a', b') => V a a' ∧ W b b'

/-! ## 1. Passes without a state -/

/-- Both give something, and `Q` relates the results, or both end with an error, and `E` relates the
    errors. -/
inductive Together (Q : α → α' → Prop) (E : ε → ε → Prop) : Except ε α → Except ε α' → Prop where
  | ok {a : α} {a' : α'} (h : Q a a') : Together Q E (.ok a) (.ok a')
  | error {e e' : ε} (h : E e e') : Together Q E (.error e) (.error e')

namespace Together

variable {Q : α → α' → Prop} {P : β → β' → Prop} {E F : ε → ε → Prop} {x : Except ε α}
  {x' : Except ε α'} {f : α → Except ε β} {f' : α' → Except ε β'}

theorem pure {a : α} {a' : α'} (h : Q a a') :
    Together Q E (pure a : Except ε α) (pure a' : Except ε α') := .ok h

theorem throw {e e' : ε} (h : E e e') :
    Together Q E (throw e : Except ε α) (throw e' : Except ε α') := .error h

theorem imp_error (h : Together Q E x x') (hE : ∀ e e', E e e' → F e e') : Together Q F x x' := by
  cases h with
  | ok h => exact .ok h
  | error h => exact .error (hE _ _ h)

theorem of_ok {a : α} {a' : α'} (h : Together Q E x x') (hx : x = .ok a) (hx' : x' = .ok a') :
    Q a a' := by
  subst hx hx'
  cases h
  assumption

theorem of_error {e e' : ε} (h : Together Q E x x') (hx : x = .error e) (hx' : x' = .error e') :
    E e e' := by
  subst hx hx'
  cases h
  assumption

/-- **In a row**, the second steps may rely on the results of the first ones. -/
theorem bind (hx : Together Q E x x') (hf : ∀ a a', Q a a' → Together P E (f a) (f' a')) :
    Together P E (x >>= f) (x' >>= f') := by
  cases hx with
  | ok h => exact hf _ _ h
  | error h => exact .error h

end Together

/-! ## 2. Passes with a state -/

/-- From states that `I` relates, both give something, `Q` relates the results and `I` the states
    that are left, or both end with an error, and `E` relates the errors. -/
def InStep (I : σ → σ → Prop) (Q : α → α' → Prop) (E : ε → ε → Prop) (x : EStateM ε σ α)
    (x' : EStateM ε σ α') : Prop :=
  ∀ s s', I s s' →
    (∃ a a' t t', Runs x s a t ∧ Runs x' s' a' t' ∧ I t t' ∧ Q a a') ∨
      ∃ e e', Fails x s e ∧ Fails x' s' e' ∧ E e e'

namespace InStep

variable {I : σ → σ → Prop} {Q : α → α' → Prop} {P : β → β' → Prop} {E : ε → ε → Prop}
  {x : EStateM ε σ α} {x' : EStateM ε σ α'} {f : α → EStateM ε σ β} {f' : α' → EStateM ε σ β'}

theorem pure {a : α} {a' : α'} (h : Q a a') :
    InStep I Q E (pure a : EStateM ε σ α) (pure a' : EStateM ε σ α') := fun s s' hs =>
  .inl ⟨a, a', s, s', runs_pure.2 ⟨rfl, rfl⟩, runs_pure.2 ⟨rfl, rfl⟩, hs, h⟩

theorem throw {e e' : ε} (h : E e e') :
    InStep I Q E (throw e : EStateM ε σ α) (throw e' : EStateM ε σ α') := fun _ _ _ =>
  .inr ⟨e, e', fails_throw.2 rfl, fails_throw.2 rfl, h⟩

theorem modifyGet {g : σ → α × σ} {g' : σ → α' × σ}
    (h : ∀ s s', I s s' → I (g s).2 (g' s').2 ∧ Q (g s).1 (g' s').1) :
    InStep I Q E (modifyGet g : EStateM ε σ α) (modifyGet g' : EStateM ε σ α') := fun s s' hs =>
  .inl ⟨_, _, _, _, runs_modifyGet.2 ⟨rfl, rfl⟩, runs_modifyGet.2 ⟨rfl, rfl⟩, h s s' hs⟩

/-- Both read their states. -/
theorem get : InStep I I E (get : EStateM ε σ σ) (get : EStateM ε σ σ) := fun s s' hs =>
  .inl ⟨s, s', s, s', runs_get.2 ⟨rfl, rfl⟩, runs_get.2 ⟨rfl, rfl⟩, hs, hs⟩

/-- Both go on from states that are alike. -/
theorem set {t t' : σ} (h : I t t') :
    InStep I (fun _ _ => True) E (set t : EStateM ε σ PUnit) (set t' : EStateM ε σ PUnit) :=
  fun _ _ _ => .inl ⟨.unit, .unit, t, t', runs_set.2 rfl, runs_set.2 rfl, h, trivial⟩

/-- Both change their states alike. -/
theorem modify {g g' : σ → σ} (h : ∀ s s', I s s' → I (g s) (g' s')) :
    InStep I (fun _ _ => True) E (modify g : EStateM ε σ PUnit) (modify g' : EStateM ε σ PUnit) :=
  modifyGet fun s s' hs => ⟨h s s' hs, trivial⟩

/-- **In a row**, the second steps may rely on the results of the first ones. -/
theorem bind (hx : InStep I Q E x x') (hf : ∀ a a', Q a a' → InStep I P E (f a) (f' a')) :
    InStep I P E (x >>= f) (x' >>= f') := by
  intro s s' hs
  obtain ⟨a, a', t, t', hrun, hrun', ht, ha⟩ | ⟨e, e', hfails, hfails', he⟩ := hx s s' hs
  · obtain ⟨b, b', u, u', hrun₂, hrun₂', hu, hb⟩ | ⟨e, e', hfails, hfails', he⟩ :=
      hf a a' ha t t' ht
    · exact .inl ⟨b, b', u, u', runs_bind.2 ⟨a, t, hrun, hrun₂⟩,
        runs_bind.2 ⟨a', t', hrun', hrun₂'⟩, hu, hb⟩
    · exact .inr ⟨e, e', hrun.fails_behind hfails, hrun'.fails_behind hfails', he⟩
  · exact .inr ⟨e, e', hfails.bind, hfails'.bind, he⟩

/-- A pass that never fails gives the same when it is run twice from one state. -/
theorem refl (h : FailsOnly (fun _ => False) x) : InStep Eq Eq E x x := by
  rintro s _ rfl
  obtain ⟨a, t, hrun⟩ | ⟨e, hfails⟩ := runs_or_fails x s
  · exact .inl ⟨a, a, t, t, hrun, hrun, rfl, rfl⟩
  · exact (h s e hfails).elim

end InStep

end ClosureML
