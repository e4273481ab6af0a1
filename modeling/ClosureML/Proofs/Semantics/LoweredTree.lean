import ClosureML.Proofs.Semantics.MatchLowering
import ClosureML.Proofs.Semantics.TupleErasure
import ClosureML.Proofs.Syntax.Levels

/-!
# Lowering goes down level by level

Lowering of data types and matches leaves a tree without them, and erasure of tuples leaves one of
core constructs only. Both succeed, and all names stay bound: those of the program where they were,
and those that lowering makes by the constructs that it makes. Erasure makes none of the names that
the tree before refers to.

* `Lowers s p x`: from the supply `s` on, `x` gives something with the property `p`;
* `IsLowered tags L s names n`: an expression of level `L` that refers to no name which the supply
  `s` can still make for erasure;
* `LeadsDown`: what the function on nodes of a step establishes;
* `IsTree.everywhere` and `IsTree.everywhere_tupled`: the trees of the level with everything are
  those that lowering of matches is for, and those of the next level are those that erasure is for.

Main statements: `IsTree.rebuild_lowers` (a tree of one level becomes one of the other) and
`IsRoot.lower_ok`.
-/

namespace ClosureML

open Lowering Node

/-! ## 1. Names and supplies -/

namespace Supply

variable {s s' : Supply} {x stem : String} {k : Nat}

/-- What a supply spares, a later one does as well. -/
theorem Spares.later (h : s.Spares x) (hs : s.Before s') : s'.Spares x := fun stem hstem hx =>
  h stem hstem (hs.reserves hx)

/-- A name that was made already is spared. -/
theorem spares_generatedName (hstem : stem ∈ loweringStems) (hk : k < s.count stem) :
    s.Spares (generatedName stem k) := by
  rintro stem' hstem' ⟨j, hj, heq⟩
  have hmade : stem' ∈ loweringStems := by
    simp only [List.mem_cons, List.not_mem_nil, or_false] at hstem'
    rcases hstem' with rfl | rfl | rfl <;> decide
  obtain ⟨rfl, rfl⟩ :=
    generatedName_inj (not_endsInDigit_of_mem hstem) (not_endsInDigit_of_mem hmade) heq
  omega

end Supply

/-- From a supply on, a pass gives something with a property, and leaves a later supply. -/
def Lowers {α : Type} (s : Supply) (p : Supply → α → Prop) (x : Lower α) : Prop :=
  ∃ a s', Runs x s a s' ∧ s.Before s' ∧ p s' a

namespace Lowers

variable {α β : Type} {s : Supply} {p : Supply → α → Prop} {q : Supply → β → Prop} {x : Lower α}
  {f : α → Lower β}

theorem pure {a : α} (h : p s a) : Lowers s p (pure a) := ⟨a, s, runs_pure.2 ⟨rfl, rfl⟩, .refl s, h⟩

/-- In a row, a pass succeeds when the second step does behind the first. -/
theorem bind (hx : Lowers s p x) (hf : ∀ s₁ a, s.Before s₁ → p s₁ a → Lowers s₁ q (f a)) :
    Lowers s q (x >>= f) := by
  obtain ⟨a, s₁, hrun, hs₁, ha⟩ := hx
  obtain ⟨b, s', hrun', hs', hb⟩ := hf s₁ a hs₁ ha
  exact ⟨b, s', runs_bind.2 ⟨a, s₁, hrun, hrun'⟩, hs₁.trans hs', hb⟩

end Lowers

section Names

variable {s : Supply} {stem : String}

theorem freshName_lowers (hstem : stem ∈ loweringStems) (s : Supply) :
    Lowers s (fun s' x => s'.Spares x) (freshName stem) := by
  refine ⟨_, _, exists_runs_freshName stem s, s.before_next stem,
    Supply.spares_generatedName hstem ?_⟩
  rw [Supply.count_next, if_pos rfl]
  exact Nat.lt_succ_self _

theorem freshNames_lowers (hstem : stem ∈ loweringStems) (k : Nat) (s : Supply) :
    Lowers s (fun s' xs => xs.length = k ∧ ∀ x ∈ xs, s'.Spares x) (freshNames stem k) := by
  induction k generalizing s with
  | zero => exact .pure ⟨rfl, nofun⟩
  | succ k ih =>
    refine (freshName_lowers hstem s).bind fun s₁ x _ hx =>
      (ih s₁).bind fun s₂ xs hs₂ hxs => .pure ?_
    exact ⟨congrArg (· + 1) hxs.1, List.forall_mem_cons.2 ⟨hx.later hs₂, hxs.2⟩⟩

end Names

/-! ## 2. What lowering is made of -/

/-- An expression of a level that refers to names in scope only, and to none that the supply can
    still make for erasure. -/
abbrev IsLowered (tags : List (String × Nat)) (L : Level) (s : Supply) (names : List String)
    (n : Node) : Prop :=
  IsTree tags s.Spares L names n

variable {tags : List (String × Nat)} {P : String → Prop} {L : Level} {s s' : Supply}
  {names names' : List String} {p : Position} {n body result : Node}

theorem IsLowered.mono (h : IsLowered tags L s names n) (hnames : names ⊆ names') :
    IsLowered tags L s names' n := IsTree.mono (fun _ => id) h hnames

/-- A later supply can make fewer names. -/
theorem IsLowered.later (h : IsLowered tags L s names n) (hs : s.Before s') :
    IsLowered tags L s' names n := IsTree.mono (fun _ hx => hx.later hs) h (List.Subset.refl _)

/-- One more name may be in scope. -/
theorem IsLowered.weaken (h : IsLowered tags L s names n) (x : String) :
    IsLowered tags L s (x :: names) n := h.mono (List.subset_cons_self _ _)

theorem isLowered_reference {x : String} (hx : x ∈ names) (hs : s.Spares x) :
    IsLowered tags L s names (reference p x) := .reference hx hs

theorem isLowered_component {x : String} {index arity : Nat} (hx : x ∈ names) (hs : s.Spares x)
    (hindex : index < arity) : IsLowered tags .tuples s names (component p x index arity) :=
  .projection Level.noConfusion hindex (isLowered_reference hx hs)

/-- A component of a pair. -/
theorem isLowered_half {x : String} {index : Nat} (hx : x ∈ names) (hs : s.Spares x)
    (hindex : index < 2) : IsLowered tags .tuples s names (component p x index 2) :=
  isLowered_component hx hs hindex

theorem isLowered_pair {first second : Node} (h : IsLowered tags .tuples s names first)
    (h' : IsLowered tags .tuples s names second) :
    IsLowered tags .tuples s names (pair p first second) :=
  .tuple Level.noConfusion (List.cons_ne_nil _ _) (.cons h (.cons h' .nil))

theorem isLowered_success (h : IsLowered tags .tuples s names result) :
    IsLowered tags .tuples s names (success p result) := isLowered_pair .literal h

theorem isLowered_failure : IsLowered tags .tuples s names (failure p) :=
  isLowered_pair .literal .literal

theorem isLowered_functions {xs : List String} (h : IsLowered tags L s (xs ++ names) body) :
    IsLowered tags L s names (functions p xs body) := by
  induction xs generalizing names with
  | nil => exact h
  | cons x xs ih => exact .lambda (ih (h.mono fun y hy => by simpa [or_left_comm] using hy))

theorem AreTrees.of_mem : ∀ {ns : List Node}, AreTrees tags P L names ns → n ∈ ns →
    IsTree tags P L names n
  | _ :: _, .cons hn _, .head _ => hn
  | _ :: _, .cons _ hns, .tail _ h => hns.of_mem h

/-- Values that are bound one inside the other: none of them needs the names of the others. -/
theorem isLowered_bindings {bindings : List (String × Node)}
    (hbindings : ∀ b ∈ bindings, IsLowered tags L s names b.2)
    (hbody : IsLowered tags L s (bindings.map Prod.fst ++ names) body) :
    IsLowered tags L s names
      (bindings.foldr (fun (x, value) body => bind p x value body) body) := by
  induction bindings generalizing names with
  | nil => exact hbody
  | cons b bindings ih =>
    obtain ⟨hb, hrest⟩ := List.forall_mem_cons.1 hbindings
    refine .letIn hb (ih (fun c hc => (hrest c hc).weaken b.1) (hbody.mono fun y hy => ?_))
    simpa [or_left_comm] using hy

theorem isLowered_applications {ts : List String} (h : IsLowered tags L s names n)
    (hts : ∀ t ∈ ts, t ∈ names ∧ s.Spares t) :
    IsLowered tags L s names (ts.foldl (fun f t => apply p f (reference p t)) n) := by
  induction ts generalizing n with
  | nil => exact h
  | cons t ts ih =>
    obtain ⟨ht, hrest⟩ := List.forall_mem_cons.1 hts
    exact ih (.application h (isLowered_reference ht.1 ht.2)) hrest

theorem areTrees_references {xs : List String} (hxs : ∀ x ∈ xs, x ∈ names ∧ s.Spares x) :
    AreTrees tags s.Spares L names (xs.map (reference p)) := by
  induction xs with
  | nil => exact .nil
  | cons x xs ih =>
    obtain ⟨hx, hrest⟩ := List.forall_mem_cons.1 hxs
    exact .cons (isLowered_reference hx.1 hx.2) (ih hrest)

/-! ## 3. Patterns -/

/-- The chain of tests for the elements of a tuple. -/
theorem isLowered_applyInTurn {argument : String} {arity : Nat}
    {steps : List String} {function : Node} {step : Nat} (hargument : argument ∈ names)
    (hspared : ∀ x ∈ argument :: steps, s.Spares x)
    (hfunction : IsLowered tags .tuples s names function) (hsteps : step + steps.length = arity) :
    IsLowered tags .tuples s names (applyInTurn p argument arity function step steps) := by
  have happlied : ∀ {names : List String} {function : Node} {step : Nat}, argument ∈ names →
      IsLowered tags .tuples s names function → step < arity →
      IsLowered tags .tuples s names (apply p function (component p argument step arity)) :=
    fun hargument hfunction hstep =>
      .application hfunction
        (isLowered_component hargument (hspared argument List.mem_cons_self) hstep)
  induction steps generalizing names function step with
  | nil => exact hfunction
  | cons r rest ih =>
    rw [List.length_cons] at hsteps
    have hfirst := happlied hargument hfunction (by omega : step < arity)
    cases rest with
    | nil => exact hfirst
    | cons r' rest =>
      have hr : r ∈ r :: names := List.mem_cons_self
      have hspared_r := hspared r (List.mem_cons_of_mem _ List.mem_cons_self)
      refine .letIn hfirst
        (.conditional (.binary (isLowered_half hr hspared_r Nat.zero_lt_two) .literal)
          isLowered_failure ?_)
      refine ih (List.mem_cons_of_mem r hargument) (fun x hx => hspared x ?_)
        (isLowered_half hr hspared_r Nat.one_lt_two) (by omega)
      exact (List.mem_cons.1 hx).elim (fun h => h ▸ List.mem_cons_self) fun h =>
        List.mem_cons_of_mem _ (List.mem_cons_of_mem _ h)

/-- The function of several patterns, when it is known how they are chained. -/
theorem tupleFunction_lowers {ps : List Node}
    (hresult : ps = [] → IsLowered tags .tuples s names result)
    (hchained : ∀ s₁ x, s.Before s₁ →
      Lowers s₁ (fun s' => IsLowered tags .tuples s' (x :: names)) (chainedFunction p result ps)) :
    Lowers s (fun s' => IsLowered tags .tuples s' names) (tupleFunction p result ps) := by
  unfold tupleFunction
  refine (freshName_lowers (by decide) s).bind fun s₁ x hs₁ hx => ?_
  split
  · next hempty =>
    exact .pure (.lambda (isLowered_success
      (((hresult (List.isEmpty_iff.1 hempty)).later hs₁).weaken x)))
  · refine (hchained s₁ x hs₁).bind fun s₂ chained hs₂ hchain =>
      (freshName_lowers (by decide) s₂).bind fun s₃ chain hs₃ hspared =>
        (freshNames_lowers (by decide) ps.length s₃).bind fun s₄ steps hs₄ hsteps => .pure ?_
    have hs := hs₃.trans hs₄
    refine .lambda (.letIn (hchain.later hs) (isLowered_applyInTurn ?_ ?_ ?_ ?_))
    · exact List.mem_cons_of_mem chain List.mem_cons_self
    · exact List.forall_mem_cons.2 ⟨hx.later (hs₂.trans hs), hsteps.2⟩
    · exact isLowered_reference List.mem_cons_self (hspared.later hs₄)
    · rw [hsteps.1, Nat.zero_add]

mutual

/-- **The function of a pattern** can be made, around a result in which the names of the pattern are
    in scope. -/
theorem IsTaggedPattern.patternFunction_lowers : ∀ {pat result : Node} {names : List String}
    {s : Supply}, IsTaggedPattern tags pat →
      IsLowered tags .tuples s (pat.patternNames ++ names) result →
        Lowers s (fun s' => IsLowered tags .tuples s' names) (patternFunction p result pat)
  | _, _, _, _, .binder, hresult => by
    rw [patternFunction]
    exact .pure (.lambda (isLowered_success hresult))
  | _, _, _, s, .literal, hresult => by
    rw [patternFunction]
    refine (freshName_lowers (by decide) s).bind fun s₁ x hs₁ hx =>
      .pure (.lambda (.conditional ?_ ?_ ?_))
    · exact .binary (isLowered_reference List.mem_cons_self hx) .literal
    · exact isLowered_success ((hresult.later hs₁).weaken x)
    · exact isLowered_failure
  | _, _, _, _, .tuple hps, hresult => by
    rw [patternFunction]
    refine tupleFunction_lowers (fun hnil => ?_) fun s₁ x hs₁ => hps.chainedFunction_lowers ?_
    · subst hnil
      exact hresult
    · exact (hresult.later hs₁).mono (append_subset_append (List.subset_cons_self x _))
  | .patternConstructor m c ps _, result, names, s, .constructor _ hps, hresult => by
    rw [patternFunction]
    have hpayload : ∀ s₁, s.Before s₁ →
        Lowers s₁ (fun s' => IsLowered tags .tuples s' names) (tupleFunction p result ps) := by
      intro s₁ hs₁
      refine tupleFunction_lowers (fun hnil => ?_) fun s₂ y hs₂ =>
        hps.chainedFunction_lowers ?_
      · subst hnil
        exact hresult.later hs₁
      · exact (hresult.later (hs₁.trans hs₂)).mono
          (append_subset_append (List.subset_cons_self y _))
    refine (freshName_lowers (by decide) s).bind fun s₁ x hs₁ hx => (hpayload s₁ hs₁).bind
      fun s₂ payload hs₂ h => .pure (.lambda (.conditional ?_ ?_ ?_))
    · exact .binary (isLowered_half List.mem_cons_self (hx.later hs₂) Nat.zero_lt_two) .literal
    · exact .application (h.weaken x)
        (isLowered_half List.mem_cons_self (hx.later hs₂) Nat.one_lt_two)
    · exact isLowered_failure

theorem AreTaggedPatterns.chainedFunction_lowers : ∀ {ps : List Node} {result : Node}
    {names : List String} {s : Supply}, AreTaggedPatterns tags ps →
      IsLowered tags .tuples s (patternNamesAll ps ++ names) result →
        Lowers s (fun s' => IsLowered tags .tuples s' names) (chainedFunction p result ps)
  | _, _, _, _, .nil, hresult => by
    rw [chainedFunction]
    exact .pure hresult
  | q :: ps, result, names, s, .cons hp hps, hresult => by
    rw [chainedFunction]
    have hinner :
        IsLowered tags .tuples s (patternNamesAll ps ++ (q.patternNames ++ names)) result :=
      hresult.mono fun y hy => by
        rw [patternNamesAll] at hy
        simpa [or_left_comm, or_assoc] using hy
    exact (hps.chainedFunction_lowers hinner).bind fun s₁ inner _ h => hp.patternFunction_lowers h

end

/-! ## 4. Matches and data types -/

theorem AreArms.attempts_lowers {scrutinee : String} (hscrutinee : scrutinee ∈ names) :
    ∀ {arms : List Node} {s : Supply}, s.Spares scrutinee →
      AreArms tags s.Spares .tuples names arms →
        Lowers s (fun s' tried => ∀ t ∈ tried, s'.Spares t.1 ∧ IsLowered tags .tuples s' names t.2)
          (attempts p scrutinee arms)
  | _, _, _, .nil => .pure nofun
  | _, s, hspared, .cons hp hbody hrest =>
    (freshName_lowers (by decide) s).bind fun s₁ _ hs₁ hv =>
      (freshName_lowers (by decide) s₁).bind fun s₂ matcher hs₂ hmatcher =>
        (hp.patternFunction_lowers (IsLowered.later hbody (hs₁.trans hs₂))).bind fun s₃ _ hs₃ hf =>
          have hs := (hs₁.trans hs₂).trans hs₃
          have hrest := hrest.mono (fun _ hx => hx.later hs) (List.Subset.refl _)
          (hrest.attempts_lowers hscrutinee (hspared.later hs)).bind fun s₄ _ hs₄ htried =>
            .pure (List.forall_mem_cons.2 ⟨⟨hv.later (hs₂.trans (hs₃.trans hs₄)),
              .letIn (hf.later hs₄) (.application
                (isLowered_reference List.mem_cons_self (hmatcher.later (hs₃.trans hs₄)))
                (isLowered_reference (List.mem_cons_of_mem matcher hscrutinee)
                  (hspared.later (hs.trans hs₄))))⟩, htried⟩)

theorem isLowered_firstSuccess {tried : List (String × Node)}
    (h : ∀ t ∈ tried, s.Spares t.1 ∧ IsLowered tags .tuples s names t.2) :
    IsLowered tags .tuples s names (firstSuccess p tried) := by
  induction tried generalizing names with
  | nil => exact .application .builtin .literal
  | cons t rest ih =>
    obtain ⟨v, attempt⟩ := t
    obtain ⟨⟨hspared, hattempt⟩, hrest⟩ := List.forall_mem_cons.1 h
    have hv : v ∈ v :: names := List.mem_cons_self
    refine .letIn hattempt
      (.conditional (.binary (isLowered_half hv hspared Nat.zero_lt_two) .literal)
        (isLowered_half hv hspared Nat.one_lt_two)
        (ih fun t ht => ⟨(hrest t ht).1, (hrest t ht).2.weaken v⟩))

theorem lowerMatch_lowers {scrutinee : Node} {arms : List Node}
    (he : IsLowered tags .tuples s names scrutinee)
    (harms : AreArms tags s.Spares .tuples names arms) :
    Lowers s (fun s' => IsLowered tags .tuples s' names) (lowerMatch p scrutinee arms) :=
  (freshName_lowers (by decide) s).bind fun s₁ e hs₁ hspared =>
    ((harms.mono (fun _ hx => hx.later hs₁) (List.subset_cons_self e _)).attempts_lowers
      List.mem_cons_self hspared).bind fun s₂ _ hs₂ htried =>
        .pure (.letIn (he.later (hs₁.trans hs₂)) (isLowered_firstSuccess htried))

theorem constructorValue_lowers (tag : Nat) (parameters : List TypeExpr) (s : Supply) :
    Lowers s (fun s' => IsLowered tags .tuples s' []) (constructorValue p tag parameters) := by
  unfold constructorValue
  split
  · exact .pure (isLowered_pair .literal .literal)
  · next hne =>
    refine (freshNames_lowers (by decide) parameters.length s).bind fun s₁ xs _ hxs => .pure ?_
    refine isLowered_functions (isLowered_pair .literal (.tuple Level.noConfusion ?_ ?_))
    · rw [ne_eq, List.map_eq_nil_iff, ← List.length_eq_zero_iff, hxs.1, List.length_eq_zero_iff]
      simpa using hne
    · exact areTrees_references fun x hx => ⟨List.mem_append_left _ hx, hxs.2 x hx⟩

theorem AreTaggedConstructors.constructorValues_lowers : ∀ {cs : List Node} {s : Supply},
    AreTaggedConstructors tags cs →
      Lowers s (fun s' values => values.map Prod.fst = constructorNames cs ∧
        ∀ b ∈ values, IsLowered tags .tuples s' [] b.2) (constructorValues p cs)
  | _, _, .nil => .pure ⟨rfl, nofun⟩
  | .dataConstructor _ c parameters (some tag) :: _, s, .cons _ hcs =>
    (constructorValue_lowers tag parameters s).bind fun _ _ _ hvalue =>
      hcs.constructorValues_lowers.bind fun _ _ hs₂ ⟨hnames, hvalues⟩ =>
        .pure ⟨congrArg (c :: ·) hnames, List.forall_mem_cons.2 ⟨hvalue.later hs₂, hvalues⟩⟩

theorem lowerDataType_lowers {cs : List Node} (hcs : AreTaggedConstructors tags cs)
    (hbody : IsLowered tags .tuples s (constructorNames cs ++ names) body) :
    Lowers s (fun s' => IsLowered tags .tuples s' names) (lowerDataType p cs body) :=
  hcs.constructorValues_lowers.bind fun _ values hs₁ ⟨hnames, hvalues⟩ => .pure <|
    isLowered_bindings (fun b hb => (hvalues b hb).mono (List.nil_subset _))
      (by rw [hnames]; exact hbody.later hs₁)

/-! ## 5. Trees for lowering -/

mutual

theorem IsTaggedPattern.everywhere : ∀ {pat : Node}, IsTaggedPattern tags pat →
    pat.Everywhere (IsTaggedPart tags)
  | _, .binder | _, .literal => .mk trivial nofun
  | _, .tuple hps => .mk trivial hps.everywhere
  | _, .constructor hc hps => .mk ⟨_, rfl, hc⟩ hps.everywhere

theorem AreTaggedPatterns.everywhere : ∀ {ps : List Node}, AreTaggedPatterns tags ps →
    ∀ pat ∈ ps, pat.Everywhere (IsTaggedPart tags)
  | _, .nil => nofun
  | _, .cons hp hps => List.forall_mem_cons.2 ⟨hp.everywhere, hps.everywhere⟩

end

theorem AreTaggedConstructors.isTagged : ∀ {cs : List Node}, AreTaggedConstructors tags cs →
    ∀ c ∈ cs, IsTaggedConstructor tags c
  | _, .nil => nofun
  | _, .cons hc hcs => List.forall_mem_cons.2 ⟨⟨_, _, _, _, rfl, hc⟩, hcs.isTagged⟩

mutual

/-- **A tree of the level with everything** is one that lowering is for. -/
theorem IsTree.everywhere (hP : ∀ x, P x → IsProgramName x) : ∀ {names : List String} {n : Node},
    IsTree tags P L names n → n.Everywhere (IsMatched tags)
  | _, _, .literal | _, _, .builtin => .mk trivial nofun
  | _, _, .reference _ hx => .mk (hP _ hx) nofun
  | _, _, .lambda hbody => .mk trivial (List.forall_mem_singleton.2 (hbody.everywhere hP))
  | _, _, .application hf ha =>
    .mk trivial (List.forall_mem_cons.2
      ⟨hf.everywhere hP, List.forall_mem_singleton.2 (ha.everywhere hP)⟩)
  | _, _, .letIn hvalue hbody =>
    .mk trivial (List.forall_mem_cons.2
      ⟨hvalue.everywhere hP, List.forall_mem_singleton.2 (hbody.everywhere hP)⟩)
  | _, _, .letRec _ harms hbody =>
    .mk (fun a ha => (harms.everywhere hP a ha).1) (List.forall_mem_append.2
      ⟨fun a ha => (harms.everywhere hP a ha).2, List.forall_mem_singleton.2 (hbody.everywhere hP)⟩)
  | _, _, .conditional hc ht he =>
    .mk trivial (List.forall_mem_cons.2 ⟨hc.everywhere hP, List.forall_mem_cons.2
      ⟨ht.everywhere hP, List.forall_mem_singleton.2 (he.everywhere hP)⟩⟩)
  | _, _, .binary hl hr =>
    .mk trivial (List.forall_mem_cons.2
      ⟨hl.everywhere hP, List.forall_mem_singleton.2 (hr.everywhere hP)⟩)
  | _, _, .unary he => .mk trivial (List.forall_mem_singleton.2 (he.everywhere hP))
  | _, _, .sequence _ hes | _, _, .tuple _ _ hes => .mk trivial (hes.everywhere hP)
  | _, _, .projection _ _ he => .mk trivial (List.forall_mem_singleton.2 (he.everywhere hP))
  | _, _, .dataType _ hcs hbody => by
    refine .mk hcs.isTagged (List.forall_mem_append.2
      ⟨fun c hc => ?_, List.forall_mem_singleton.2 (hbody.everywhere hP)⟩)
    obtain ⟨m, name, parameters, tag, rfl, -⟩ := hcs.isTagged c hc
    exact .mk trivial nofun
  | _, _, .matchWith _ he harms =>
    .mk (fun a ha => (harms.everywhere hP a ha).1)
      (List.forall_mem_cons.2 ⟨he.everywhere hP, fun a ha => (harms.everywhere hP a ha).2⟩)

theorem AreTrees.everywhere (hP : ∀ x, P x → IsProgramName x) : ∀ {names : List String}
    {ns : List Node}, AreTrees tags P L names ns → ∀ n ∈ ns, n.Everywhere (IsMatched tags)
  | _, _, .nil => nofun
  | _, _, .cons hn hns => List.forall_mem_cons.2 ⟨hn.everywhere hP, hns.everywhere hP⟩

theorem AreFunctions.everywhere (hP : ∀ x, P x → IsProgramName x) : ∀ {names : List String}
    {ns : List Node}, AreFunctions tags P L names ns →
      ∀ n ∈ ns, n.kind = .letRecArm ∧ n.Everywhere (IsMatched tags)
  | _, _, .nil => nofun
  | _, _, .cons hbody hrest => List.forall_mem_cons.2
    ⟨⟨rfl, .mk trivial (List.forall_mem_singleton.2 (hbody.everywhere hP))⟩, hrest.everywhere hP⟩

theorem AreArms.everywhere (hP : ∀ x, P x → IsProgramName x) : ∀ {names : List String}
    {ns : List Node}, AreArms tags P L names ns →
      ∀ n ∈ ns, IsTaggedArm tags n ∧ n.Everywhere (IsMatched tags)
  | _, _, .nil => nofun
  | _, _, .cons hp hbody hrest => List.forall_mem_cons.2
    ⟨⟨⟨_, _, _, rfl, hp.everywhere⟩, .mk trivial (List.forall_mem_cons.2
      ⟨hp.everywhere.imp fun _ => IsTaggedPart.isMatched,
        List.forall_mem_singleton.2 (hbody.everywhere hP)⟩)⟩, hrest.everywhere hP⟩

end

mutual

/-- **A tree of the level with tuples** is one that erasure is for. -/
theorem IsTree.everywhere_tupled : ∀ {names : List String} {n : Node},
    IsTree tags P .tuples names n → n.Everywhere (IsTupled P)
  | _, _, .literal | _, _, .builtin => .mk trivial nofun
  | _, _, .reference _ hx => .mk hx nofun
  | _, _, .lambda hbody =>
    .mk trivial (List.forall_mem_singleton.2 hbody.everywhere_tupled)
  | _, _, .application hf ha =>
    .mk trivial (List.forall_mem_cons.2
      ⟨hf.everywhere_tupled, List.forall_mem_singleton.2 ha.everywhere_tupled⟩)
  | _, _, .letIn hvalue hbody =>
    .mk trivial (List.forall_mem_cons.2
      ⟨hvalue.everywhere_tupled, List.forall_mem_singleton.2 hbody.everywhere_tupled⟩)
  | _, _, .letRec _ harms hbody =>
    .mk (fun a ha => (harms.everywhere_tupled a ha).1) (List.forall_mem_append.2
      ⟨fun a ha => (harms.everywhere_tupled a ha).2,
        List.forall_mem_singleton.2 hbody.everywhere_tupled⟩)
  | _, _, .conditional hc ht he =>
    .mk trivial (List.forall_mem_cons.2 ⟨hc.everywhere_tupled, List.forall_mem_cons.2
      ⟨ht.everywhere_tupled, List.forall_mem_singleton.2 he.everywhere_tupled⟩⟩)
  | _, _, .binary hl hr =>
    .mk trivial (List.forall_mem_cons.2
      ⟨hl.everywhere_tupled, List.forall_mem_singleton.2 hr.everywhere_tupled⟩)
  | _, _, .unary he => .mk trivial (List.forall_mem_singleton.2 he.everywhere_tupled)
  | _, _, .sequence _ hes => .mk trivial hes.everywhere_tupled
  | _, _, .tuple _ hne hes => .mk hne hes.everywhere_tupled
  | _, _, .projection _ hindex he =>
    .mk ⟨_, rfl, hindex⟩ (List.forall_mem_singleton.2 he.everywhere_tupled)
  | _, _, .dataType hL _ _ => nomatch hL
  | _, _, .matchWith hL _ _ => nomatch hL

theorem AreTrees.everywhere_tupled : ∀ {names : List String} {ns : List Node},
    AreTrees tags P .tuples names ns →
      ∀ n ∈ ns, n.Everywhere (IsTupled P)
  | _, _, .nil => nofun
  | _, _, .cons hn hns => List.forall_mem_cons.2 ⟨hn.everywhere_tupled, hns.everywhere_tupled⟩

theorem AreFunctions.everywhere_tupled : ∀ {names : List String} {ns : List Node},
    AreFunctions tags P .tuples names ns →
      ∀ n ∈ ns, n.kind = .letRecArm ∧ n.Everywhere (IsTupled P)
  | _, _, .nil => nofun
  | _, _, .cons hbody hrest => List.forall_mem_cons.2
    ⟨⟨rfl, .mk trivial (List.forall_mem_singleton.2 hbody.everywhere_tupled)⟩,
      hrest.everywhere_tupled⟩

end

/-! ## 6. One level down -/

/-- Is the node one of the constructs that lowering replaces? -/
def Node.isReplaced : Node → Bool
  | .tuple .. | .projection .. | .dataType .. | .matchWith .. => true
  | _ => false

/-- What a function on nodes must do so that rebuilding with it leads from one level to another: it
    keeps most nodes, and makes trees of the other level of those that it replaces. -/
structure LeadsDown (tags : List (String × Nat)) (f : Node → Lower Node) (L L' : Level) : Prop where
  keeps : ∀ n : Node, n.isReplaced = false → f n = pure n
  tuple : ∀ {s : Supply} {names : List String} {m : Mark} {es : List Node}, L ≠ .core → es ≠ [] →
    AreTrees tags s.Spares L' names es →
      Lowers s (fun s' => IsLowered tags L' s' names) (f (.tuple m es))
  projection : ∀ {s : Supply} {names : List String} {m : Mark} {index k : Nat} {e : Node},
    L ≠ .core → index < k → IsLowered tags L' s names e →
      Lowers s (fun s' => IsLowered tags L' s' names) (f (.projection m index (some k) e))
  dataType : ∀ {s : Supply} {names : List String} {m : Mark} {d : String} {cs : List Node}
    {body : Node}, L = .matches → AreTaggedConstructors tags cs →
      IsLowered tags L' s (constructorNames cs ++ names) body →
        Lowers s (fun s' => IsLowered tags L' s' names) (f (.dataType m d cs body))
  matchWith : ∀ {s : Supply} {names : List String} {m : Mark} {e : Node} {arms : List Node},
    L = .matches → IsLowered tags L' s names e → AreArms tags s.Spares L' names arms →
      Lowers s (fun s' => IsLowered tags L' s' names) (f (.matchWith m e arms))

section LeadsDown

variable {f : Node → Lower Node} {L' : Level}

theorem LeadsDown.kept (hf : LeadsDown tags f L L') {p : Supply → Node → Prop} (hn : p s n)
    (hkept : n.isReplaced = false) : Lowers s p (f n) := by
  rw [hf.keeps n hkept]
  exact .pure hn

mutual

theorem IsTaggedPattern.rebuild_lowers (hf : LeadsDown tags f L L') : ∀ {pat : Node} {s : Supply},
    IsTaggedPattern tags pat → Lowers s (fun _ n => n = pat) (pat.rebuild f)
  | _, _, .binder | _, _, .literal => hf.kept rfl rfl
  | _, _, .tuple hps => (hps.rebuildAll_lowers hf).bind fun _ _ _ h => h ▸ hf.kept rfl rfl
  | _, _, .constructor _ hps =>
    (hps.rebuildAll_lowers hf).bind fun _ _ _ h => h ▸ hf.kept rfl rfl

theorem AreTaggedPatterns.rebuildAll_lowers (hf : LeadsDown tags f L L') : ∀ {ps : List Node}
    {s : Supply}, AreTaggedPatterns tags ps → Lowers s (fun _ ns => ns = ps) (rebuildAll f ps)
  | _, _, .nil => .pure rfl
  | _, _, .cons hp hps => (hp.rebuild_lowers hf).bind fun _ _ _ h =>
    (hps.rebuildAll_lowers hf).bind fun _ _ _ h' => h ▸ h' ▸ .pure rfl

end

theorem AreTaggedConstructors.rebuildAll_lowers (hf : LeadsDown tags f L L') : ∀ {cs : List Node}
    {s : Supply}, AreTaggedConstructors tags cs → Lowers s (fun _ ns => ns = cs) (rebuildAll f cs)
  | _, _, .nil => .pure rfl
  | .dataConstructor m c parameters (some tag) :: _, s, .cons _ hcs =>
    have hc : Lowers s (fun _ n => n = .dataConstructor m c parameters (some tag))
        (f (.dataConstructor m c parameters (some tag))) := hf.kept rfl rfl
    hc.bind fun _ _ _ h => (hcs.rebuildAll_lowers hf).bind fun _ _ _ h' => h ▸ h' ▸ .pure rfl

/-- The references of the tree before are spared by the supply, and by every later one. -/
theorem spared_later (hP : ∀ x, P x → s.Spares x) (hs : s.Before s') : ∀ x, P x → s'.Spares x :=
  fun x hx => (hP x hx).later hs

mutual

/-- **Rebuilding leads from one level to the other**, with the same names in scope, when the supply
    spares the references of the tree. -/
theorem IsTree.rebuild_lowers (hf : LeadsDown tags f L L') : ∀ {names : List String} {n : Node}
    {s : Supply}, (∀ x, P x → s.Spares x) → IsTree tags P L names n →
      Lowers s (fun s' => IsLowered tags L' s' names) (n.rebuild f)
  | _, _, _, _, .literal => hf.kept .literal rfl
  | _, _, _, hP, .reference hx hPx => hf.kept (.reference hx (hP _ hPx)) rfl
  | _, _, _, _, .builtin => hf.kept .builtin rfl
  | _, _, _, hP, .lambda hbody =>
    (hbody.rebuild_lowers hf hP).bind fun _ _ _ h => hf.kept (.lambda h) rfl
  | _, _, _, hP, .application hg ha =>
    (hg.rebuild_lowers hf hP).bind fun _ _ hs₁ h =>
      (ha.rebuild_lowers hf (spared_later hP hs₁)).bind fun _ _ hs₂ h' =>
        hf.kept (.application (h.later hs₂) h') rfl
  | _, _, _, hP, .letIn hvalue hbody =>
    (hvalue.rebuild_lowers hf hP).bind fun _ _ hs₁ h =>
      (hbody.rebuild_lowers hf (spared_later hP hs₁)).bind fun _ _ hs₂ h' =>
        hf.kept (.letIn (h.later hs₂) h') rfl
  | _, _, _, hP, .letRec hdistinct harms hbody =>
    (harms.rebuildAll_lowers hf hP).bind fun _ _ hs₁ ⟨hnames, h⟩ =>
      (hbody.rebuild_lowers hf (spared_later hP hs₁)).bind fun _ _ hs₂ h' =>
        have h := h.mono (fun _ hx => hx.later hs₂) (List.Subset.refl _)
        hf.kept (.letRec (hnames ▸ hdistinct) (hnames ▸ h) (hnames ▸ h')) rfl
  | _, _, _, hP, .conditional hc ht he =>
    (hc.rebuild_lowers hf hP).bind fun _ _ hs₁ h =>
      (ht.rebuild_lowers hf (spared_later hP hs₁)).bind fun _ _ hs₂ h' =>
        (he.rebuild_lowers hf (spared_later hP (hs₁.trans hs₂))).bind fun _ _ hs₃ h'' =>
          hf.kept (.conditional (h.later (hs₂.trans hs₃)) (h'.later hs₃) h'') rfl
  | _, _, _, hP, .binary hl hr =>
    (hl.rebuild_lowers hf hP).bind fun _ _ hs₁ h =>
      (hr.rebuild_lowers hf (spared_later hP hs₁)).bind fun _ _ hs₂ h' =>
        hf.kept (.binary (h.later hs₂) h') rfl
  | _, _, _, hP, .unary he => (he.rebuild_lowers hf hP).bind fun _ _ _ h => hf.kept (.unary h) rfl
  | _, _, _, hP, .sequence hne hes =>
    (hes.rebuildAll_lowers hf hP).bind fun _ _ _ ⟨hnil, h⟩ =>
      hf.kept (.sequence (mt hnil.1 hne) h) rfl
  | _, _, _, hP, .tuple hL hne hes =>
    (hes.rebuildAll_lowers hf hP).bind fun _ _ _ ⟨hnil, h⟩ => hf.tuple hL (mt hnil.1 hne) h
  | _, _, _, hP, .projection hL hindex he =>
    (he.rebuild_lowers hf hP).bind fun _ _ _ h => hf.projection hL hindex h
  | _, _, _, hP, .dataType hL hcs hbody =>
    (hcs.rebuildAll_lowers hf).bind fun _ _ hs₁ h =>
      (hbody.rebuild_lowers hf (spared_later hP hs₁)).bind fun _ _ _ h' =>
        hf.dataType hL (h ▸ hcs) (h ▸ h')
  | _, _, _, hP, .matchWith hL he harms =>
    (he.rebuild_lowers hf hP).bind fun _ _ hs₁ h =>
      (harms.rebuildAll_lowers hf (spared_later hP hs₁)).bind fun _ _ hs₂ h' =>
        hf.matchWith hL (h.later hs₂) h'

theorem AreTrees.rebuildAll_lowers (hf : LeadsDown tags f L L') : ∀ {names : List String}
    {ns : List Node} {s : Supply}, (∀ x, P x → s.Spares x) → AreTrees tags P L names ns →
      Lowers s (fun s' ns' => (ns' = [] ↔ ns = []) ∧ AreTrees tags s'.Spares L' names ns')
        (rebuildAll f ns)
  | _, _, _, _, .nil => .pure ⟨Iff.rfl, .nil⟩
  | _, _, _, hP, .cons hn hns =>
    (hn.rebuild_lowers hf hP).bind fun _ _ hs₁ h =>
      (hns.rebuildAll_lowers hf (spared_later hP hs₁)).bind fun _ _ hs₂ h' =>
        .pure ⟨iff_of_false (List.cons_ne_nil _ _) (List.cons_ne_nil _ _),
          .cons (IsLowered.later h hs₂) h'.2⟩

theorem AreFunctions.rebuildAll_lowers (hf : LeadsDown tags f L L') : ∀ {names : List String}
    {ns : List Node} {s : Supply}, (∀ x, P x → s.Spares x) → AreFunctions tags P L names ns →
      Lowers s (fun s' ns' => functionNames ns' = functionNames ns ∧
        AreFunctions tags s'.Spares L' names ns') (rebuildAll f ns)
  | _, _, _, _, .nil => .pure ⟨rfl, .nil⟩
  | names, .letRecArm m g x pa ra body :: _, s, hP, .cons hbody hrest => by
    have harm : Lowers s (fun s' arm => ∃ body', arm = .letRecArm m g x pa ra body' ∧
        IsLowered tags L' s' (x :: names) body') ((Node.letRecArm m g x pa ra body).rebuild f) :=
      (hbody.rebuild_lowers hf hP).bind fun _ body' _ h => hf.kept ⟨body', rfl, h⟩ rfl
    refine harm.bind fun _ _ hs₁ ⟨body', harm, h⟩ =>
      (hrest.rebuildAll_lowers hf (spared_later hP hs₁)).bind fun _ _ hs₂ hmore => ?_
    rw [harm]
    exact .pure ⟨congrArg (g :: ·) hmore.1, .cons (IsLowered.later h hs₂) hmore.2⟩

theorem AreArms.rebuildAll_lowers (hf : LeadsDown tags f L L') : ∀ {names : List String}
    {ns : List Node} {s : Supply}, (∀ x, P x → s.Spares x) → AreArms tags P L names ns →
      Lowers s (fun s' => AreArms tags s'.Spares L' names) (rebuildAll f ns)
  | _, _, _, _, .nil => .pure .nil
  | names, .matchArm m q body :: _, s, hP, .cons hp hbody hrest => by
    have harm : Lowers s (fun s' arm => ∃ body', arm = .matchArm m q body' ∧
        IsLowered tags L' s' (q.patternNames ++ names) body')
        ((Node.matchArm m q body).rebuild f) :=
      (hp.rebuild_lowers hf).bind fun _ _ hs₁ hq =>
        (hbody.rebuild_lowers hf (spared_later hP hs₁)).bind fun _ body' _ h =>
          hf.kept ⟨body', by rw [hq], h⟩ rfl
    refine harm.bind fun _ _ hs₁ ⟨body', harm, h⟩ =>
      (hrest.rebuildAll_lowers hf (spared_later hP hs₁)).bind fun _ _ hs₂ hmore => ?_
    rw [harm]
    exact .pure (.cons hp (IsLowered.later h hs₂) hmore)

end

theorem IsRoot.rebuild_lowers (hf : LeadsDown tags f L L') : ∀ {n : Node}, (∀ x, P x → s.Spares x) →
    IsRoot tags P L n → Lowers s (fun s' => IsRoot tags s'.Spares L') (n.rebuild f)
  | _, hP, .mk he => (he.rebuild_lowers hf hP).bind fun _ _ _ h => hf.kept (.mk h) rfl

end LeadsDown

/-! ## 7. Both steps -/

theorem leadsDown_lowerMatchNode : LeadsDown tags lowerMatchNode .matches .tuples where
  keeps n hkept := by
    cases n with
    | dataType | matchWith => nomatch hkept
    | _ => rfl
  tuple _ hne hes := .pure (.tuple Level.noConfusion hne hes)
  projection _ hindex he := .pure (.projection Level.noConfusion hindex he)
  dataType _ hcs hbody := lowerDataType_lowers hcs hbody
  matchWith _ he harms := lowerMatch_lowers he harms

theorem eraseTuple_lowers {es : List Node} (hne : es ≠ [])
    (hes : AreTrees tags s.Spares L names es) :
    Lowers s (fun s' => IsLowered tags L s' names) (eraseTuple p es) := by
  unfold eraseTuple
  rw [if_neg (mt List.isEmpty_iff.1 hne)]
  refine (freshNames_lowers (by decide) es.length s).bind fun s₁ ts hs₁ hts =>
    (freshName_lowers (by decide) s₁).bind fun s₂ selector hs₂ hselector =>
      .pure (isLowered_bindings (fun b hb => ?_)
        (.lambda (isLowered_applications ?_ fun t ht => ?_)))
  · exact IsLowered.later (hes.of_mem (List.of_mem_zip hb).2) (hs₁.trans hs₂)
  · exact isLowered_reference List.mem_cons_self hselector
  · rw [List.map_fst_zip (Nat.le_of_eq hts.1)]
    exact ⟨List.mem_cons_of_mem selector (List.mem_append_left _ ht), (hts.2 t ht).later hs₂⟩

theorem selector_lowers {index k : Nat} (hindex : index < k) (s : Supply) :
    Lowers s (fun s' => IsLowered tags L s' names) (selector p index k) := by
  unfold selector
  refine (freshNames_lowers (by decide) k s).bind fun s₁ xs _ hxs => ?_
  have hlength : index < xs.length := hxs.1 ▸ hindex
  rw [List.getElem?_eq_getElem hlength]
  have hmem := List.getElem_mem hlength
  exact .pure
    (isLowered_functions (isLowered_reference (List.mem_append_left _ hmem) (hxs.2 _ hmem)))

theorem leadsDown_eraseNode : LeadsDown tags eraseNode .tuples .core where
  keeps n hkept := by
    cases n with
    | tuple | projection => nomatch hkept
    | _ => rfl
  tuple _ hne hes := eraseTuple_lowers hne hes
  projection {s _ _ _ _ _} _ hindex he :=
    (selector_lowers hindex s).bind fun _ _ hs₁ h => .pure (.application (he.later hs₁) h)
  dataType hL := nomatch hL
  matchWith hL := nomatch hL

/-- Lowering takes both steps, with names from one supply. -/
theorem Node.lower_eq_ok {lowered : Node} : n.lower = .ok lowered ↔
    ∃ matched s s', Runs n.lowerMatches .empty matched s ∧
      Runs matched.eraseTuples s lowered s' := by
  constructor
  · intro h
    unfold Node.lower at h
    dsimp only at h
    split at h
    · next s' hrun =>
      cases h
      obtain ⟨matched, s, hmatched, herased⟩ := runs_bind.1 hrun
      exact ⟨matched, s, s', hmatched, herased⟩
    · cases h
  · rintro ⟨matched, s, s', hmatched, herased⟩
    have hrun : (n.lowerMatches >>= Node.eraseTuples).run .empty = .ok lowered s' :=
      runs_bind.2 ⟨matched, s, hmatched, herased⟩
    unfold Node.lower
    dsimp only
    split
    · next heq => exact congrArg Except.ok (EStateM.Result.ok.inj (heq.symm.trans hrun)).1
    · next heq => cases heq.symm.trans hrun

/-- **Lowering succeeds** on a program of the level with everything: its matches are lowered, and
    then its tuples are erased, which makes none of the names that the tree in between refers to. -/
theorem IsRoot.lower_ok (hP : ∀ x, P x → IsProgramName x) (h : IsRoot tags P .matches n) :
    ∃ matched lowered s s', n.lower = .ok lowered ∧
      Runs n.lowerMatches .empty matched s ∧ IsRoot tags s.Spares .tuples matched ∧
        Runs matched.eraseTuples s lowered s' ∧ IsRoot tags s'.Spares .core lowered := by
  have hspared : ∀ x, P x → Supply.empty.Spares x :=
    fun x hx => Supply.spares_of_not_dollar (hP x hx)
  obtain ⟨matched, s, hmatched, -, hroot⟩ := h.rebuild_lowers leadsDown_lowerMatchNode hspared
  obtain ⟨lowered, s', herased, -, hlowered⟩ := hroot.rebuild_lowers leadsDown_eraseNode fun _ => id
  exact ⟨matched, lowered, s, s', lower_eq_ok.2 ⟨matched, s, s', hmatched, herased⟩, hmatched,
    hroot, herased, hlowered⟩

end ClosureML
