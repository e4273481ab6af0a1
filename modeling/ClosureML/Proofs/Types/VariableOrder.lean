import ClosureML.Proofs.Types.InferenceSound
import Mathlib.Algebra.GroupWithZero.Nat

/-!
# Where the variables of a run come from

Inference numbers its variables upward. As long as the numbers do not run out, a run mentions only
variables of its environment and variables that it has made itself, and so do the equations that it
adds. This needs a tree without projections: a projection gives a component of a solved type, whose
variables may be older than the run and still not be in the environment.

* `Types.Made`: a variable that was there before, or one that was made since;
* `Types.Scoped`: what a run may mention;
* `Types.InOrder`: environment and equations mention variables that were made.

Main statements: `Infers.scoped` and `Infers.apart` (without projections, generalising apart from
the equations before a value is no different from generalising apart from the environment).
-/

namespace ClosureML

open ClosureML.Types

/-! ## 1. Variables that were made -/

/-- Numbers that have not run out are those of their variables. -/
theorem TypeVar.toNat_ofNat {n : Nat} (h : n < 2 ^ 32) : (TypeVar.ofNat n).toNat = n :=
  UInt32.toNat_ofNat_of_lt' h

namespace Types

/-- A variable that was there before, or one whose number lies between two states of the counter. -/
def Made (before : TypeVar → Prop) (start next : Nat) (v : TypeVar) : Prop :=
  before v ∨ start ≤ v.toNat ∧ v.toNat < next

variable {B : TypeVar → Prop} {k : Nat}

theorem Made.mono {next next' : Nat} {v : TypeVar} (h : Made B k next v) (hle : next ≤ next') :
    Made B k next' v :=
  h.imp_right fun ⟨hk, hv⟩ => ⟨hk, Nat.lt_of_lt_of_le hv hle⟩

/-- Between two states, a run mentions the variables `vs` and adds equations, all of them about
    variables that were made. -/
structure Scoped (B : TypeVar → Prop) (k : Nat) (s s' : InferState) (vs : List TypeVar) :
    Prop where
  mentions : ∀ v ∈ vs, Made B k s'.nextVariable v
  constraints : ∃ cs, s'.constraints.toList = s.constraints.toList ++ cs ∧
    ∀ v ∈ cs.flatMap Constraint.occurrences, Made B k s'.nextVariable v

namespace Scoped

variable {s s₁ s' : InferState} {vs ws : List TypeVar}

theorem refl (h : ∀ v ∈ vs, Made B k s.nextVariable v) : Scoped B k s s vs :=
  ⟨h, [], (List.append_nil _).symm, fun _ h => nomatch h⟩

theorem only (h : Scoped B k s s' vs) (hws : ∀ v ∈ ws, v ∈ vs) : Scoped B k s s' ws :=
  ⟨fun v hv => h.mentions v (hws v hv), h.constraints⟩

theorem trans (h : Scoped B k s s₁ vs) (h' : Scoped B k s₁ s' ws)
    (hle : s₁.nextVariable ≤ s'.nextVariable) : Scoped B k s s' (vs ++ ws) := by
  obtain ⟨cs, hcs, hmade⟩ := h.constraints
  obtain ⟨ds, hds, hmade'⟩ := h'.constraints
  refine ⟨fun v hv => ?_, cs ++ ds, by rw [hds, hcs, List.append_assoc], fun v hv => ?_⟩
  · rcases List.mem_append.1 hv with hv | hv
    · exact (h.mentions v hv).mono hle
    · exact h'.mentions v hv
  · rw [List.flatMap_append, List.mem_append] at hv
    rcases hv with hv | hv
    · exact (hmade v hv).mono hle
    · exact hmade' v hv

/-- An equation between types that were mentioned. -/
theorem constrain (h : Scoped B k s s₁ vs) {t u : Ty} {position : Position}
    (hrun : Runs (Types.constrain t u position) s₁ () s') (ht : ∀ v ∈ t.occurrences, v ∈ vs)
    (hu : ∀ v ∈ u.occurrences, v ∈ vs) : Scoped B k s s' vs := by
  rcases runs_constrain hrun with ⟨-, rfl⟩ | rfl
  · exact h
  · obtain ⟨cs, hcs, hmade⟩ := h.constraints
    refine ⟨h.mentions, cs ++ [⟨t, u, position⟩], ?_, fun v hv => ?_⟩
    · rw [Array.toList_push, hcs, List.append_assoc]
    · rw [List.flatMap_append, List.mem_append] at hv
      rcases hv with hv | hv
      · exact hmade v hv
      · simp only [List.flatMap_cons, List.flatMap_nil, List.append_nil, Constraint.occurrences,
          List.mem_append] at hv
        exact h.mentions v (hv.elim (ht v) (hu v))

end Scoped

variable {s s' : InferState}

theorem scoped_fresh {t : Ty} (h : Runs fresh s t s') (hk : k ≤ s.nextVariable)
    (hbound : s'.nextVariable ≤ 2 ^ 32) : Scoped B k s s' t.occurrences := by
  obtain ⟨rfl, rfl⟩ := runs_fresh.1 h
  refine ⟨fun v hv => ?_, [], (List.append_nil _).symm, fun _ h => nomatch h⟩
  rw [Ty.occurrences, List.mem_singleton] at hv
  subst hv
  have hn : (TypeVar.ofNat s.nextVariable).toNat = s.nextVariable :=
    TypeVar.toNat_ofNat (Nat.lt_of_lt_of_le (Nat.lt_succ_self _) hbound)
  exact .inr (by rw [hn]; exact ⟨hk, Nat.lt_succ_self _⟩)

theorem scoped_ascribedOrFresh {ascription : Option TypeExpr} {t : Ty}
    (h : Runs (ascribedOrFresh ascription) s t s') (hk : k ≤ s.nextVariable)
    (hbound : s'.nextVariable ≤ 2 ^ 32) : Scoped B k s s' t.occurrences := by
  cases ascription with
  | none => exact scoped_fresh h hk hbound
  | some a =>
    obtain ⟨rfl, rfl⟩ := runs_pure.1 h
    exact .refl fun v hv => by simp [TypeExpr.occurrences_toTy] at hv

theorem Scoped.agrees {s₀ : InferState} {vs : List TypeVar} (h : Scoped B k s₀ s vs) {t : Ty}
    {position : Position} {ascription : Option TypeExpr} (hrun : Agrees t position ascription s s')
    (ht : ∀ v ∈ t.occurrences, v ∈ vs) : Scoped B k s₀ s' vs := by
  cases ascription with
  | none => exact hrun ▸ h
  | some a => exact h.constrain hrun ht fun v hv => by simp [TypeExpr.occurrences_toTy] at hv

/-- The variables that a copy of a schema puts in place of quantified ones. -/
theorem scoped_freshCopies : ∀ {vs : VarSet} {copies : List (TypeVar × Ty)} {s s' : InferState},
    Runs (freshCopies vs) s copies s' → k ≤ s.nextVariable → s'.nextVariable ≤ 2 ^ 32 →
      ∀ v ∈ vs, ∃ t, Substitution.findIn v copies = some t ∧
        ∀ w ∈ t.occurrences, Made B k s'.nextVariable w
  | [], _, _, _, _, _, _, _, hv => nomatch hv
  | u :: vs, _, s, _, h, hk, hbound, v, hv => by
    simp only [freshCopies, runs_bind, runs_pure] at h
    obtain ⟨t, s₁, ht, more, s₂, hmore, rfl, rfl⟩ := h
    have hle := (follows_freshCopies hmore).1.next
    have hle₁ := (follows_fresh ht).next
    have hfirst := scoped_fresh (B := B) ht hk (Nat.le_trans hle hbound)
    rw [Substitution.findIn]
    split
    · exact ⟨t, rfl, fun w hw => (hfirst.mentions w hw).mono hle⟩
    · next hne =>
      exact scoped_freshCopies hmore (Nat.le_trans hk hle₁) hbound v
        ((List.mem_cons.1 hv).resolve_left hne)

/-- A copy of a schema mentions the schema's free variables, and new ones. -/
theorem scoped_instantiate {schema : Schema} {t : Ty} (h : Runs (instantiate schema) s t s')
    (hk : k ≤ s.nextVariable) (hbound : s'.nextVariable ≤ 2 ^ 32)
    (hfree : ∀ v ∈ schema.freeVariables, Made B k s.nextVariable v) :
    Scoped B k s s' t.occurrences := by
  obtain ⟨copies, s₁, hcopies, rfl, rfl⟩ := runs_instantiate h
  have hle := (follows_freshCopies hcopies).1.next
  have hpart : ∀ v, v ∈ schema.type.occurrences ∨
      v ∈ schema.constraints.flatMap Constraint.occurrences →
      ∀ w ∈ ((Substitution.findIn v copies).getD (.var v)).occurrences,
        Made B k s₁.nextVariable w := by
    intro v hv w hw
    by_cases hq : v ∈ schema.quantified
    · obtain ⟨u, hu, hmade⟩ := scoped_freshCopies (B := B) hcopies hk hbound v hq
      rw [hu] at hw
      exact hmade w hw
    · rw [findIn_freshCopies hcopies v hq] at hw
      rw [Option.getD_none, Ty.occurrences, List.mem_singleton] at hw
      subst hw
      exact (hfree w (mem_freeVariables_schema.2 ⟨hv, hq⟩)).mono hle
  refine ⟨fun w hw => ?_,
    schema.constraints.map (Constraint.substitute fun v => Substitution.findIn v copies), ?_,
    fun w hw => ?_⟩
  · obtain ⟨v, hv, hw⟩ := Ty.mem_occurrences_substitute _ hw
    exact hpart v (.inl hv) w hw
  · rw [Array.toList_appendList, (follows_freshCopies hcopies).2]
  · obtain ⟨d, hd, hw⟩ := List.mem_flatMap.1 hw
    obtain ⟨c, hc, rfl⟩ := List.mem_map.1 hd
    rcases List.mem_append.1 hw with hw | hw
    · obtain ⟨v, hv, hw⟩ := Ty.mem_occurrences_substitute _ hw
      exact hpart v (.inr (List.mem_flatMap.2 ⟨c, hc, List.mem_append_left _ hv⟩)) w hw
    · obtain ⟨v, hv, hw⟩ := Ty.mem_occurrences_substitute _ hw
      exact hpart v (.inr (List.mem_flatMap.2 ⟨c, hc, List.mem_append_right _ hv⟩)) w hw

/-! ## 2. Environments -/

theorem environment_extend {P : TypeVar → Prop} {Γ : TypeEnvironment} {x : String} {b : Binding}
    (hΓ : ∀ v ∈ environmentVariables Γ, P v) (hb : ∀ v ∈ b.freeVariables, P v) :
    ∀ v ∈ environmentVariables (Γ.extend (x, b)), P v := by
  intro v hv
  obtain ⟨entry, hentry, hv⟩ := mem_environmentVariables.1 hv
  rcases List.mem_cons.1 hentry with rfl | hentry
  · exact hb v hv
  · exact hΓ v (mem_environmentVariables.2 ⟨entry, hentry, hv⟩)

theorem environment_extendAll {P : TypeVar → Prop} {Γ : TypeEnvironment}
    {bindings : List (String × Binding)} (hΓ : ∀ v ∈ environmentVariables Γ, P v)
    (hbindings : ∀ entry ∈ bindings, ∀ v ∈ entry.2.freeVariables, P v) :
    ∀ v ∈ environmentVariables (Γ.extendAll bindings), P v := by
  intro v hv
  obtain ⟨entry, hentry, hv⟩ := mem_environmentVariables.1 hv
  rw [Scope.toList_extendAll, List.mem_append, List.mem_reverse] at hentry
  rcases hentry with hentry | hentry
  · exact hbindings entry hentry v hv
  · exact hΓ v (mem_environmentVariables.2 ⟨entry, hentry, hv⟩)

theorem mem_environmentVariables_of_lookup? {Γ : TypeEnvironment} {x : String} {b : Binding}
    (h : lookup? Γ x = some b) : ∀ v ∈ b.freeVariables, v ∈ environmentVariables Γ := by
  intro v hv
  obtain ⟨⟨y, b'⟩, hentry, heq⟩ := List.exists_of_findSome?_eq_some h
  dsimp only at heq
  split at heq
  · cases heq
    exact mem_environmentVariables.2 ⟨_, hentry, hv⟩
  · cases heq

/-- Generalising leaves no variable free but fixed ones. -/
theorem mem_of_mem_generalizeOver {fixed : VarSet} {t : Ty} {cs : List Constraint} {v : TypeVar}
    (h : v ∈ (generalizeOver fixed t cs).freeVariables) : v ∈ fixed := by
  refine Decidable.byContradiction fun hv => ?_
  have hquantified : ∀ {w : TypeVar}, w ∈ t.occurrences ++ cs.flatMap Constraint.occurrences →
      w ∉ fixed →
      w ∈ (VarSet.ofList (t.occurrences ++ cs.flatMap Constraint.occurrences)).diff fixed :=
    fun hw hw' => VarSet.mem_diff.2 ⟨VarSet.mem_ofList.2 hw, hw'⟩
  simp only [generalizeOver] at h
  split at h
  · next hempty =>
    have := hquantified (List.mem_append_left _ (Ty.mem_freeVariables.1 h)) hv
    rw [List.isEmpty_iff.1 hempty] at this
    cases this
  · obtain ⟨hmem, hnot⟩ := mem_freeVariables_schema.1 h
    refine hnot (hquantified (List.mem_append.2 (hmem.imp_right fun hc => ?_)) hv)
    obtain ⟨c, hc, hv⟩ := List.mem_flatMap.1 hc
    exact List.mem_flatMap.2 ⟨c, (List.mem_filter.1 hc).1, hv⟩

/-- The counter has not run out, and the signatures are those of declarations with names of their
    own. -/
structure InferState.Bounded (Δ : List Declaration) (s : InferState) : Prop where
  next : s.nextVariable ≤ 2 ^ 32
  declared : Declared Δ s
  nodup : (Δ.map Declaration.name).Nodup

theorem InferState.Follows.bounded {Δ ds : List Declaration} (h : Follows ds s s')
    (hs' : s'.Bounded Δ) : s.Bounded Δ :=
  ⟨Nat.le_trans h.next hs'.next, h.declared hs'.declared, hs'.nodup⟩

theorem occurrences_constructorType (parameters : List TypeExpr) (dataType : String) :
    (constructorType (parameters.map TypeExpr.toTy) (.data dataType)).occurrences = [] := by
  induction parameters with
  | nil => rfl
  | cons e rest ih =>
    rw [constructorType] at ih
    rw [constructorType, List.map_cons, List.foldr_cons, Ty.occurrences, ih, e.occurrences_toTy,
      List.append_nil]

end Types

/-! ## 3. Runs -/

variable {Δ : List Declaration} {B : TypeVar → Prop} {k : Nat}

/-- The variables of the types that names are bound to. -/
def Types.bindingVariables (bindings : List (String × Binding)) : List TypeVar :=
  bindings.flatMap fun entry => entry.2.freeVariables

mutual

theorem InfersPattern.scoped {n n' : Node} {t : Ty} {bindings : List (String × Binding)}
    {s s' : InferState} : InfersPattern n s n' t bindings s' → k ≤ s.nextVariable →
      s'.Bounded Δ → Scoped B k s s' (t.occurrences ++ bindingVariables bindings)
  | .binder ht, hk, hs' => by
    refine (scoped_fresh ht hk hs'.next).only fun v hv => ?_
    simpa [bindingVariables, Binding.freeVariables, Ty.mem_freeVariables] using hv
  | .literal, _, _ => .refl fun _ h => nomatch h
  | .tuple hps, hk, hs' => hps.scoped hk hs'
  | .constructor hc _ hps, hk, hs' => by
    obtain ⟨d, -, -, rfl, rfl⟩ := (hps.follows.bounded hs').declared.lookup hc
    exact hps.scoped hk hs' fun t ht => by
      obtain ⟨e, -, rfl⟩ := List.mem_map.1 ht
      exact e.occurrences_toTy

theorem InfersPatterns.scoped {ns ns' : List Node} {ts : List Ty}
    {bindings : List (String × Binding)} {s s' : InferState} :
    InfersPatterns ns s ns' ts bindings s' → k ≤ s.nextVariable → s'.Bounded Δ →
      Scoped B k s s' (Ty.occurrencesAll ts ++ bindingVariables bindings)
  | .nil, _, _ => .refl fun _ h => nomatch h
  | .cons hp hps, hk, hs' => by
    have h₁ := hp.scoped hk (hps.follows.bounded hs')
    have h₂ := hps.scoped (Nat.le_trans hk hp.follows.next) hs'
    refine (h₁.trans h₂ hps.follows.next).only fun v hv => ?_
    simp only [bindingVariables, Ty.occurrencesAll, List.flatMap_append, List.mem_append] at hv ⊢
    grind

theorem InfersArguments.scoped {ns ns' : List Node} {ts : List Ty}
    {bindings : List (String × Binding)} {s s' : InferState} :
    InfersArguments ns ts s ns' bindings s' → k ≤ s.nextVariable → s'.Bounded Δ →
      (∀ t ∈ ts, t.occurrences = []) → Scoped B k s s' (bindingVariables bindings)
  | .nil, _, _, _ => .refl fun _ h => nomatch h
  | .cons hp ht hps, hk, hs', hts => by
    have hs₁ := (follows_constrain ht).bounded (hps.follows.bounded hs')
    have hk₂ := Nat.le_trans hk (hp.follows.trans (follows_constrain ht)).next
    have h₁ := (hp.scoped hk hs₁).constrain ht (fun v hv => List.mem_append_left _ hv)
      fun v hv => by simp [hts _ List.mem_cons_self] at hv
    have h₂ := hps.scoped hk₂ hs' fun t ht => hts t (List.mem_cons_of_mem _ ht)
    refine (h₁.trans h₂ hps.follows.next).only fun v hv => ?_
    simp only [bindingVariables, List.flatMap_append, List.mem_append] at hv ⊢
    grind

end

/-- The types that a group declares for its functions. -/
theorem Types.scoped_declareGroup : ∀ {arms : List Node} {declared : List (String × Ty × Ty)}
    {s s' : InferState}, Runs (declareGroup arms) s declared s' → k ≤ s.nextVariable →
      s'.nextVariable ≤ 2 ^ 32 →
      Scoped B k s s' (declared.flatMap fun (_, p, r) => (Ty.function p r).occurrences)
  | [], _, _, _, h, _, _ => by
    obtain ⟨rfl, rfl⟩ := runs_pure.1 h
    exact .refl fun _ h => nomatch h
  | .letRecArm .. :: rest, _, _, _, h, hk, hs' => by
    simp only [declareGroup, runs_bind, runs_pure] at h
    obtain ⟨p, s₁, hp, r, s₂, hr, more, s₃, hmore, rfl, rfl⟩ := h
    have hle₂ := (follows_declareGroup hmore).next
    have hle₁ := (follows_ascribedOrFresh hr).next
    have hk₁ := Nat.le_trans hk (follows_ascribedOrFresh hp).next
    have hs₂ := Nat.le_trans hle₂ hs'
    have h₁ := scoped_ascribedOrFresh (B := B) hp hk (Nat.le_trans hle₁ hs₂)
    have h₂ := scoped_ascribedOrFresh (B := B) hr hk₁ hs₂
    exact (h₁.trans h₂ hle₁).trans (scoped_declareGroup hmore (Nat.le_trans hk₁ hle₁) hs') hle₂

/-- What a group declares is in scope for its own bodies. -/
theorem Types.Scoped.group {Γ : TypeEnvironment} {s s' : InferState}
    {declared : List (String × Ty × Ty)}
    (h : Scoped B k s s' (declared.flatMap fun (_, p, r) => (Ty.function p r).occurrences))
    (hΓ : ∀ v ∈ environmentVariables Γ, Made B k s'.nextVariable v) :
    (∀ v ∈ environmentVariables
        (Γ.extendAll (declared.map fun (f, p, r) => (f, .mono (.function p r)))),
      Made B k s'.nextVariable v) ∧
      ∀ type ∈ declared.map Prod.snd, ∀ v ∈ (Ty.function type.1 type.2).occurrences,
        Made B k s'.nextVariable v := by
  have hdeclared : ∀ d ∈ declared, ∀ v ∈ (Ty.function d.2.1 d.2.2).occurrences,
      Made B k s'.nextVariable v := fun d hd v hv =>
    h.mentions v (List.mem_flatMap.2 ⟨d, hd, hv⟩)
  refine ⟨environment_extendAll hΓ fun entry hentry v hv => ?_, fun type htype => ?_⟩
  · obtain ⟨d, hd, rfl⟩ := List.mem_map.1 hentry
    exact hdeclared d hd v (Ty.mem_freeVariables.1 hv)
  · obtain ⟨d, hd, rfl⟩ := List.mem_map.1 htype
    exact hdeclared d hd

/-- The declaration of constructors makes no equations. -/
theorem Types.constraints_declareConstructors {d : String} : ∀ {Γ Γ' : TypeEnvironment}
    {cs cs' : List Node} {s s' : InferState},
    Runs (declareConstructors d Γ cs) s (cs', Γ') s' → s'.constraints = s.constraints
  | _, _, [], _, _, _, h => by
    obtain ⟨-, rfl⟩ := runs_pure.1 h
    rfl
  | _, _, .dataConstructor m c parameters tag :: rest, _, _, _, h => by
    simp only [declareConstructors, runs_bind, runs_modify, runs_pure] at h
    obtain ⟨⟨⟩, _, rfl, ⟨more, inner⟩, s₂, hmore, -, rfl⟩ := h
    rw [constraints_declareConstructors hmore]

theorem Types.scoped_declareConstructors {d : String} {Γ Γ' : TypeEnvironment} {cs cs' : List Node}
    {s s' : InferState} (h : Runs (declareConstructors d Γ cs) s (cs', Γ') s') :
    Scoped B k s s' [] := by
  refine ⟨fun _ h => (nomatch h), [], ?_, fun _ h => nomatch h⟩
  rw [constraints_declareConstructors h, List.append_nil]

/-- A tree without projections. -/
def Node.NoProjection (n : Node) : Prop := n.Everywhere fun m => m.kind ≠ .projection

instance Node.decidableNoProjection (n : Node) : Decidable n.NoProjection :=
  inferInstanceAs (Decidable (n.Everywhere _))

theorem Types.occurrences_getLastD (ts : List Ty) :
    ∀ v ∈ (ts.getLastD .unit).occurrences, v ∈ Ty.occurrencesAll ts := by
  intro v hv
  induction ts with
  | nil => nomatch hv
  | cons t ts ih =>
    cases ts with
    | nil => exact List.mem_append_left _ hv
    | cons u us => exact List.mem_append_right _ (ih hv)

mutual

/-- **A run mentions variables of its environment and new ones only**, if there is no projection. -/
theorem Infers.scoped {Γ : TypeEnvironment} {n n' : Node} {t : Ty} {s s' : InferState} :
    Infers generalize Γ n s n' t s' → n.NoProjection → k ≤ s.nextVariable → s'.Bounded Δ →
      (∀ v ∈ environmentVariables Γ, Made B k s.nextVariable v) → Scoped B k s s' t.occurrences
  | .top he, hn, hk, hs', hΓ => he.scoped (hn.child (.head _)) hk hs' hΓ
  | .literal, _, _, _, _ => .refl fun _ h => nomatch h
  | .mono hx, _, _, _, hΓ => .refl fun v hv =>
    hΓ v (mem_environmentVariables_of_lookup? hx v (Ty.mem_freeVariables.2 hv))
  | .poly hx ht, _, hk, hs', hΓ => scoped_instantiate ht hk hs'.next fun v hv =>
    hΓ v (mem_environmentVariables_of_lookup? hx v hv)
  | .printer _ ht, _, hk, hs', _ => (scoped_fresh ht hk hs'.next).only fun v hv => by
    simpa [Ty.occurrences] using hv
  | .panic ht hu, _, hk, hs', _ =>
    have hle := (follows_fresh hu).next
    (scoped_fresh ht hk (Nat.le_trans hle hs'.next)).trans
      (scoped_fresh hu (Nat.le_trans hk (follows_fresh ht).next) hs'.next) hle
  | .lambda ht hbody, hn, hk, hs', hΓ => by
    have hle := (follows_ascribedOrFresh ht).next
    have h₁ := scoped_ascribedOrFresh (B := B) ht hk (Nat.le_trans hbody.follows.next hs'.next)
    have h₂ := hbody.scoped (hn.child (.head _)) (Nat.le_trans hk hle) hs' <|
      environment_extend (fun v hv => (hΓ v hv).mono hle) fun v hv =>
        h₁.mentions v (Ty.mem_freeVariables.1 hv)
    exact h₁.trans h₂ hbody.follows.next
  | .application hf ha hr hc, hn, hk, hs', hΓ => by
    have hs₂ := ((follows_fresh hr).trans (follows_constrain hc)).bounded hs'
    have hk₁ := Nat.le_trans hk hf.follows.next
    have h₁ := hf.scoped (hn.child (.head _)) hk (ha.follows.bounded hs₂) hΓ
    have h₂ := ha.scoped (hn.child (.tail _ (.head _))) hk₁ hs₂ fun v hv =>
      (hΓ v hv).mono hf.follows.next
    have h₃ := scoped_fresh (B := B) hr (Nat.le_trans hk₁ ha.follows.next)
      ((follows_constrain hc).bounded hs').next
    have h₄ := (h₁.trans h₂ ha.follows.next).trans h₃ (follows_fresh hr).next
    refine (h₄.constrain hc ?_ ?_).only ?_
    all_goals
      intro v hv
      simp only [Ty.occurrences, List.mem_append] at hv ⊢
      grind
  | .letIn hvalue ha hcs hbody, hn, hk, hs', hΓ => by
    have hs₂ := hbody.follows.bounded hs'
    have hle₁ := hvalue.follows.next
    have hle₂ := Nat.le_trans hle₁ (follows_agrees ha).next
    have h₁ := hvalue.scoped (hn.child (.head _)) hk ((follows_agrees ha).bounded hs₂) hΓ
    have h₂ := h₁.agrees ha fun _ hv => hv
    -- the free variables of a schema are those of the environment around it
    have h₃ := hbody.scoped (hn.child (.tail _ (.head _))) (Nat.le_trans hk hle₂) hs' <|
      environment_extend (fun v hv => (hΓ v hv).mono hle₂) fun v hv =>
        (hΓ v (mem_of_mem_generalizeOver hv)).mono hle₂
    exact (h₂.trans h₃ hbody.follows.next).only fun v hv => List.mem_append_right _ hv
  | .letRec hdeclared harms hcs hbody, hn, hk, hs', hΓ => by
    have hs₂ := hbody.follows.bounded hs'
    have hle₁ := (follows_declareGroup hdeclared).next
    have hle₂ := Nat.le_trans hle₁ harms.follows.next
    have h₁ := scoped_declareGroup (B := B) hdeclared hk (harms.follows.bounded hs₂).next
    obtain ⟨hgroup, htypes⟩ := h₁.group fun v hv => (hΓ v hv).mono hle₁
    have h₂ :=
      harms.scoped (fun c hc => hn.child (List.mem_append_left _ hc)) (Nat.le_trans hk hle₁)
      hs₂ hgroup htypes
    have h₃ := hbody.scoped (hn.child (by simp [Node.children])) (Nat.le_trans hk hle₂) hs' <|
      environment_extendAll (fun v hv => (hΓ v hv).mono hle₂) fun entry hentry v hv => by
        obtain ⟨⟨f, p, r⟩, -, rfl⟩ := List.mem_map.1 hentry
        exact (hΓ v (mem_of_mem_generalizeOver hv)).mono hle₂
    exact ((h₁.trans h₂ harms.follows.next).trans h₃ hbody.follows.next).only fun v hv =>
      List.mem_append_right _ hv
  | .conditional hc ht ha hb hu, hn, hk, hs', hΓ => by
    have hs₄ := (follows_constrain hu).bounded hs'
    have hs₃ := hb.follows.bounded hs₄
    have hs₂ := ha.follows.bounded hs₃
    have hle₂ := (hc.follows.trans (follows_constrain ht)).next
    have hle₃ := Nat.le_trans hle₂ ha.follows.next
    have h₁ :=
      (hc.scoped (hn.child (.head _)) hk ((follows_constrain ht).bounded hs₂) hΓ).constrain ht
      (fun _ hv => hv) fun _ hv => nomatch hv
    have h₂ := ha.scoped (hn.child (.tail _ (.head _))) (Nat.le_trans hk hle₂) hs₃ fun v hv =>
      (hΓ v hv).mono hle₂
    have h₃ := hb.scoped (hn.child (.tail _ (.tail _ (.head _)))) (Nat.le_trans hk hle₃) hs₄
      fun v hv => (hΓ v hv).mono hle₃
    refine (((h₁.trans h₂ ha.follows.next).trans h₃ hb.follows.next).constrain hu ?_ ?_).only ?_
    all_goals
      intro v hv
      simp only [List.mem_append]
      grind
  | .ofInts ho hl hr ht hu, hn, hk, hs', hΓ => by
    have hs₂ := ((follows_constrain ht).trans (follows_constrain hu)).bounded hs'
    have hle := hl.follows.next
    have h₁ := hl.scoped (hn.child (.head _)) hk (hr.follows.bounded hs₂) hΓ
    have h₂ := hr.scoped (hn.child (.tail _ (.head _))) (Nat.le_trans hk hle) hs₂ fun v hv =>
      (hΓ v hv).mono hle
    have h₃ := ((h₁.trans h₂ hr.follows.next).constrain ht
      (fun v hv => List.mem_append_left _ hv) fun v hv => nomatch hv).constrain hu
        (fun v hv => List.mem_append_right _ hv) fun v hv => nomatch hv
    refine h₃.only fun v hv => ?_
    rcases ho with ⟨-, rfl⟩ | ⟨-, rfl⟩ <;> cases hv
  | .equality _ hl hr ht, hn, hk, hs', hΓ => by
    have hs₂ := (follows_constrain ht).bounded hs'
    have hle := hl.follows.next
    have h₁ := hl.scoped (hn.child (.head _)) hk (hr.follows.bounded hs₂) hΓ
    have h₂ := hr.scoped (hn.child (.tail _ (.head _))) (Nat.le_trans hk hle) hs₂ fun v hv =>
      (hΓ v hv).mono hle
    exact ((h₁.trans h₂ hr.follows.next).constrain ht (fun v hv => List.mem_append_left _ hv)
      fun v hv => List.mem_append_right _ hv).only fun v hv => nomatch hv
  | .unary he ht, hn, hk, hs', hΓ =>
    ((he.scoped (hn.child (.head _)) hk ((follows_constrain ht).bounded hs') hΓ).constrain ht
      (fun _ hv => hv) fun _ hv => nomatch hv).only fun v hv => nomatch hv
  | .sequence hes, hn, hk, hs', hΓ =>
    (hes.scoped (fun c hc => hn.child hc) hk hs' hΓ).only (occurrences_getLastD _)
  | .tuple hes, hn, hk, hs', hΓ => hes.scoped (fun c hc => hn.child hc) hk hs' hΓ
  | .projection _ _ _, hn, _, _, _ => absurd rfl hn.here
  | .dataType hcs hbody, hn, hk, hs', hΓ => by
    obtain ⟨hfollows, hscope, -⟩ := runs_declareConstructors hcs
    have hle := hfollows.next
    have h₁ := scoped_declareConstructors (B := B) (k := k) hcs
    have h₂ := hbody.scoped (hn.child (by simp [Node.children])) (Nat.le_trans hk hle) hs' <|
      hscope ▸ environment_extendAll (fun v hv => (hΓ v hv).mono hle) fun entry hentry v hv => by
        obtain ⟨c, -, rfl⟩ := List.mem_map.1 hentry
        -- no variable stands in the type of a constructor
        simp [Binding.freeVariables, Ty.mem_freeVariables, occurrences_constructorType] at hv
    exact (h₁.trans h₂ hbody.follows.next).only fun v hv => hv
  | .matchWith he hr harms, hn, hk, hs', hΓ => by
    have hs₂ := harms.follows.bounded hs'
    have hle₁ := he.follows.next
    have hle₂ := Nat.le_trans hle₁ (follows_fresh hr).next
    have h₁ := he.scoped (hn.child (.head _)) hk ((follows_fresh hr).bounded hs₂) hΓ
    have h₂ :=
      h₁.trans (scoped_fresh (B := B) hr (Nat.le_trans hk hle₁) hs₂.next) (follows_fresh hr).next
    have h₃ :=
      harms.scoped (fun c hc => hn.child (List.mem_cons_of_mem _ hc)) (Nat.le_trans hk hle₂) hs'
      (fun v hv => (hΓ v hv).mono hle₂) (fun v hv => h₂.mentions v (List.mem_append_left _ hv))
      fun v hv => h₂.mentions v (List.mem_append_right _ hv)
    exact (h₂.trans h₃ harms.follows.next).only fun v hv => by simp [hv]
termination_by structural h => h

theorem InfersAll.scoped {Γ : TypeEnvironment} {ns ns' : List Node} {ts : List Ty}
    {s s' : InferState} : InfersAll generalize Γ ns s ns' ts s' → (∀ n ∈ ns, n.NoProjection) →
      k ≤ s.nextVariable → s'.Bounded Δ →
      (∀ v ∈ environmentVariables Γ, Made B k s.nextVariable v) →
      Scoped B k s s' (Ty.occurrencesAll ts)
  | .nil, _, _, _, _ => .refl fun _ h => nomatch h
  | .cons hn hns, hall, hk, hs', hΓ => by
    have hle := hn.follows.next
    have h₁ := hn.scoped (hall _ List.mem_cons_self) hk (hns.follows.bounded hs') hΓ
    have h₂ := hns.scoped (fun c hc => hall c (List.mem_cons_of_mem _ hc)) (Nat.le_trans hk hle) hs'
      fun v hv => (hΓ v hv).mono hle
    exact h₁.trans h₂ hns.follows.next
termination_by structural h => h

theorem InfersGroup.scoped {Γ : TypeEnvironment} {ns ns' : List Node} {types : List (Ty × Ty)}
    {s s' : InferState} : InfersGroup generalize Γ ns types s ns' s' →
      (∀ n ∈ ns, n.NoProjection) → k ≤ s.nextVariable → s'.Bounded Δ →
      (∀ v ∈ environmentVariables Γ, Made B k s.nextVariable v) →
      (∀ type ∈ types, ∀ v ∈ (Ty.function type.1 type.2).occurrences, Made B k s.nextVariable v) →
      Scoped B k s s' []
  | .nil, _, _, _, _, _ => .refl fun _ h => nomatch h
  | .cons hbody ht hrest, hall, hk, hs', hΓ, htypes => by
    have hs₂ := hrest.follows.bounded hs'
    have hle := (hbody.follows.trans (follows_constrain ht)).next
    have hfirst := htypes _ List.mem_cons_self
    have h₁ := hbody.scoped ((hall _ List.mem_cons_self).child (.head _)) hk
      ((follows_constrain ht).bounded hs₂) <| environment_extend hΓ fun v hv =>
        hfirst v (List.mem_append_left _ (Ty.mem_freeVariables.1 hv))
    have h₂ := (Scoped.refl (B := B) (k := k) hfirst).trans h₁ hbody.follows.next
    have h₃ := h₂.constrain ht (fun v hv => List.mem_append_right _ hv) fun v hv =>
      List.mem_append_left _ (List.mem_append_right _ hv)
    have h₄ :=
      hrest.scoped (fun c hc => hall c (List.mem_cons_of_mem _ hc)) (Nat.le_trans hk hle) hs'
      (fun v hv => (hΓ v hv).mono hle) fun type htype v hv =>
        (htypes type (List.mem_cons_of_mem _ htype) v hv).mono hle
    exact (h₃.trans h₄ hrest.follows.next).only fun _ h => nomatch h
termination_by structural h => h

theorem InfersArms.scoped {Γ : TypeEnvironment} {ns ns' : List Node} {t r : Ty}
    {s s' : InferState} : InfersArms generalize Γ t r ns s ns' s' →
      (∀ n ∈ ns, n.NoProjection) → k ≤ s.nextVariable → s'.Bounded Δ →
      (∀ v ∈ environmentVariables Γ, Made B k s.nextVariable v) →
      (∀ v ∈ t.occurrences, Made B k s.nextVariable v) →
      (∀ v ∈ r.occurrences, Made B k s.nextVariable v) → Scoped B k s s' []
  | .nil, _, _, _, _, _, _ => .refl fun _ h => nomatch h
  | .cons hp ht hbody hr hrest, hall, hk, hs', hΓ, htv, hrv => by
    have hs₄ := hrest.follows.bounded hs'
    have hs₃ := (follows_constrain hr).bounded hs₄
    have hs₂ := hbody.follows.bounded hs₃
    have hle₂ := (hp.follows.trans (follows_constrain ht)).next
    have hle₄ := Nat.le_trans hle₂ (hbody.follows.trans (follows_constrain hr)).next
    have h₀ : Scoped B k _ _ (_ ++ _) := .refl fun v hv =>
      (List.mem_append.1 hv).elim (htv v) (hrv v)
    have h₁ :=
      (h₀.trans (hp.scoped hk ((follows_constrain ht).bounded hs₂)) hp.follows.next).constrain
        ht (fun v hv => by simp [hv]) fun v hv => by simp [hv]
    have h₂ := hbody.scoped ((hall _ List.mem_cons_self).child (.tail _ (.head _)))
      (Nat.le_trans hk hle₂) hs₃ <| environment_extendAll (fun v hv => (hΓ v hv).mono hle₂)
        fun entry hentry v hv => h₁.mentions v <| by
          simp only [List.mem_append, bindingVariables, List.mem_flatMap]
          exact .inr (.inr ⟨entry, hentry, hv⟩)
    have h₃ :=
      (h₁.trans h₂ hbody.follows.next).constrain hr (fun v hv => by simp [hv]) fun v hv => by
      simp [hv]
    have h₄ :=
      hrest.scoped (fun c hc => hall c (List.mem_cons_of_mem _ hc)) (Nat.le_trans hk hle₄) hs'
      (fun v hv => (hΓ v hv).mono hle₄) (fun v hv => (htv v hv).mono hle₄) fun v hv =>
        (hrv v hv).mono hle₄
    exact (h₃.trans h₄ hrest.follows.next).only fun _ h => nomatch h
termination_by structural h => h

end

/-! ## 4. Environments and equations in order -/

namespace Types

/-- The environment and the equations so far mention variables that were made. -/
structure InOrder (Γ : TypeEnvironment) (s : InferState) : Prop where
  environment : ∀ v ∈ environmentVariables Γ, v.toNat < s.nextVariable
  constraints : ∀ v ∈ s.constraints.toList.flatMap Constraint.occurrences, v.toNat < s.nextVariable

/-- The variables were made before the state. -/
def Earlier (s : InferState) (vs : List TypeVar) : Prop := ∀ v ∈ vs, v.toNat < s.nextVariable

theorem Earlier.mono {s s' : InferState} {vs : List TypeVar} (h : Earlier s vs)
    (hle : s.nextVariable ≤ s'.nextVariable) : Earlier s' vs := fun v hv =>
  Nat.lt_of_lt_of_le (h v hv) hle

/-- What a step leaves behind: equations in order, and a type that mentions variables that were
    made. -/
structure Leaves (Γ : TypeEnvironment) (s : InferState) (t : Ty) (s' : InferState) : Prop where
  next : s.nextVariable ≤ s'.nextVariable
  inOrder : InOrder Γ s'
  earlier : Earlier s' t.occurrences

theorem InOrder.empty : InOrder .empty .empty := ⟨fun _ h => (nomatch h), fun _ h => nomatch h⟩

theorem Scoped.earlier {s s' : InferState} {vs : List TypeVar}
    (h : Scoped (fun _ => False) 0 s s' vs) : Earlier s' vs := fun v hv =>
  (h.mentions v hv).elim False.elim And.right

namespace InOrder

variable {Γ : TypeEnvironment} {s s' : InferState}

theorem of_scoped (hs : InOrder Γ s) {vs : List TypeVar} (h : Scoped (fun _ => False) 0 s s' vs)
    (hle : s.nextVariable ≤ s'.nextVariable) : InOrder Γ s' := by
  refine ⟨fun v hv => Nat.lt_of_lt_of_le (hs.environment v hv) hle, fun v hv => ?_⟩
  obtain ⟨cs, hcs, hmade⟩ := h.constraints
  rw [hcs, List.flatMap_append, List.mem_append] at hv
  rcases hv with hv | hv
  · exact Nat.lt_of_lt_of_le (hs.constraints v hv) hle
  · exact (hmade v hv).elim False.elim And.right

theorem made (hs : InOrder Γ s) :
    ∀ v ∈ environmentVariables Γ, Made (fun _ => False) 0 s.nextVariable v := fun v hv =>
  .inr ⟨Nat.zero_le _, hs.environment v hv⟩

theorem fresh (hs : InOrder Γ s) {t : Ty} (h : Runs fresh s t s')
    (hbound : s'.nextVariable ≤ 2 ^ 32) : Leaves Γ s t s' :=
  have hscoped := scoped_fresh h (Nat.zero_le _) hbound
  ⟨(follows_fresh h).next, hs.of_scoped hscoped (follows_fresh h).next, hscoped.earlier⟩

theorem ascribedOrFresh (hs : InOrder Γ s) {ascription : Option TypeExpr} {t : Ty}
    (h : Runs (ascribedOrFresh ascription) s t s') (hbound : s'.nextVariable ≤ 2 ^ 32) :
    Leaves Γ s t s' :=
  have hle := (follows_ascribedOrFresh h).next
  have hscoped := scoped_ascribedOrFresh h (Nat.zero_le _) hbound
  ⟨hle, hs.of_scoped hscoped hle, hscoped.earlier⟩

theorem constrain (hs : InOrder Γ s) {t u : Ty} {position : Position}
    (h : Runs (constrain t u position) s () s') (ht : Earlier s t.occurrences)
    (hu : Earlier s u.occurrences) : InOrder Γ s' := by
  have hscoped : Scoped (fun _ => False) 0 s s (t.occurrences ++ u.occurrences) := .refl fun v hv =>
    .inr ⟨Nat.zero_le _, (List.mem_append.1 hv).elim (ht v) (hu v)⟩
  exact hs.of_scoped (hscoped.constrain h (fun v hv => List.mem_append_left _ hv)
    fun v hv => List.mem_append_right _ hv) (follows_constrain h).next

theorem agrees (hs : InOrder Γ s) {t : Ty} {position : Position} {ascription : Option TypeExpr}
    (h : Agrees t position ascription s s') (ht : Earlier s t.occurrences) : InOrder Γ s' := by
  cases ascription with
  | none => exact h ▸ hs
  | some a => exact hs.constrain h ht fun v hv => by simp [TypeExpr.occurrences_toTy] at hv

theorem extend (hs : InOrder Γ s) {x : String} {b : Binding} (hb : Earlier s b.freeVariables) :
    InOrder (Γ.extend (x, b)) s := ⟨environment_extend hs.environment hb, hs.constraints⟩

theorem extendMono (hs : InOrder Γ s) {x : String} {t : Ty} (ht : Earlier s t.occurrences) :
    InOrder (Γ.extend (x, .mono t)) s := hs.extend fun v hv => ht v (Ty.mem_freeVariables.1 hv)

theorem extendAll (hs : InOrder Γ s) {bindings : List (String × Binding)}
    (hbindings : ∀ entry ∈ bindings, Earlier s entry.2.freeVariables) :
    InOrder (Γ.extendAll bindings) s :=
  ⟨environment_extendAll hs.environment hbindings, hs.constraints⟩

theorem outerAll {bindings : List (String × Binding)} (hs : InOrder (Γ.extendAll bindings) s) :
    InOrder Γ s := by
  refine ⟨fun v hv => hs.environment v ?_, hs.constraints⟩
  obtain ⟨entry, hentry, hv⟩ := mem_environmentVariables.1 hv
  refine mem_environmentVariables.2 ⟨entry, ?_, hv⟩
  rw [Scope.toList_extendAll]
  exact List.mem_append_right _ hentry

theorem outer {x : String} {b : Binding} (hs : InOrder (Γ.extend (x, b)) s) : InOrder Γ s :=
  have h : InOrder (Γ.extendAll [(x, b)]) s := hs
  h.outerAll

/-- A name that is generalised leaves the environment in order. -/
theorem generalize (hs : InOrder Γ s) {x : String} {earlier since : List Constraint} {t : Ty} :
    InOrder (Γ.extend (x, generalize Γ earlier since t)) s :=
  hs.extend fun v hv => hs.environment v (mem_of_mem_generalizeOver hv)

theorem declared (hs : InOrder Γ s) {arms : List Node} {declared : List (String × Ty × Ty)}
    (h : Runs (declareGroup arms) s declared s') (hbound : s'.nextVariable ≤ 2 ^ 32) :
    InOrder Γ s' :=
  hs.of_scoped (scoped_declareGroup h (Nat.zero_le _) hbound) (follows_declareGroup h).next

/-- The functions of a group, as its own bodies see them. -/
theorem group (hs : InOrder Γ s) {arms : List Node} {declared : List (String × Ty × Ty)}
    (h : Runs (declareGroup arms) s declared s') (hbound : s'.nextVariable ≤ 2 ^ 32) :
    InOrder (Γ.extendAll (declared.map fun (f, p, r) => (f, .mono (.function p r)))) s' ∧
      ∀ type ∈ declared.map Prod.snd, Earlier s' (Ty.function type.1 type.2).occurrences := by
  have hscoped := scoped_declareGroup (B := fun _ => False) h (Nat.zero_le _) hbound
  have hs' := hs.declared h hbound
  obtain ⟨hgroup, htypes⟩ := hscoped.group hs'.made
  exact ⟨⟨fun v hv => (hgroup v hv).elim False.elim And.right, hs'.constraints⟩,
    fun type htype v hv => (htypes type htype v hv).elim False.elim And.right⟩

/-- The functions of a group, as the body behind it sees them. -/
theorem behindGroup (hs : InOrder Γ s) {declared : List (String × Ty × Ty)}
    {earlier since : List Constraint} :
    InOrder (Γ.extendAll (declared.map fun (f, p, r) =>
      (f, Types.generalize Γ earlier since (.function p r)))) s :=
  hs.extendAll fun entry hentry v hv => by
    obtain ⟨d, -, rfl⟩ := List.mem_map.1 hentry
    exact hs.environment v (mem_of_mem_generalizeOver hv)

/-- The constructors of a data type. -/
theorem dataType (hs : InOrder Γ s) {d : String} {Γ' : TypeEnvironment} {cs cs' : List Node}
    (h : Runs (declareConstructors d Γ cs) s (cs', Γ') s') : InOrder Γ' s' := by
  obtain ⟨hfollows, rfl, -⟩ := runs_declareConstructors h
  refine (hs.of_scoped (scoped_declareConstructors h) hfollows.next).extendAll
    fun entry hentry v hv => ?_
  obtain ⟨c, -, rfl⟩ := List.mem_map.1 hentry
  simp [Binding.freeVariables, Ty.mem_freeVariables, occurrences_constructorType] at hv

/-- The names that a pattern binds. -/
theorem pattern (hs : InOrder Γ s) {p p' : Node} {t : Ty} {bindings : List (String × Binding)}
    (h : InfersPattern p s p' t bindings s') (hs' : s'.Bounded Δ) :
    Leaves Γ s t s' ∧ ∀ entry ∈ bindings, Earlier s' entry.2.freeVariables := by
  have hscoped := h.scoped (B := fun _ => False) (Nat.zero_le _) hs'
  refine ⟨⟨h.follows.next, hs.of_scoped hscoped h.follows.next, fun v hv => ?_⟩,
    fun entry hentry v hv => ?_⟩
  · exact hscoped.earlier v (List.mem_append_left _ hv)
  · exact hscoped.earlier v (List.mem_append_right _ (List.mem_flatMap.2 ⟨entry, hentry, hv⟩))

end InOrder

end Types

/-- **What a run leaves is in order.** -/
theorem Infers.leaves {Γ : TypeEnvironment} {n n' : Node} {t : Ty} {s s' : InferState}
    (h : Infers generalize Γ n s n' t s') (hn : n.NoProjection) (hs' : s'.Bounded Δ)
    (hs : InOrder Γ s) : Leaves Γ s t s' :=
  have hscoped := h.scoped hn (Nat.zero_le _) hs' hs.made
  ⟨h.follows.next, hs.of_scoped hscoped h.follows.next, hscoped.earlier⟩

/-- Behind a group, the environment around it is in order. -/
theorem InfersGroup.inOrder {Γ Γ₀ : TypeEnvironment} {ns ns' : List Node} {types : List (Ty × Ty)}
    {s s' : InferState} (h : InfersGroup generalize Γ ns types s ns' s')
    (hn : ∀ n ∈ ns, n.NoProjection) (hs' : s'.Bounded Δ) (hs : InOrder Γ s)
    (htypes : ∀ type ∈ types, Earlier s (Ty.function type.1 type.2).occurrences)
    (hs₀ : InOrder Γ₀ s) :
    InOrder Γ₀ s' :=
  hs₀.of_scoped (h.scoped hn (Nat.zero_le _) hs' hs.made fun type htype v hv =>
    .inr ⟨Nat.zero_le _, htypes type htype v hv⟩) h.follows.next

/-! ## 5. Generalising apart -/

namespace Types

/-- Generalising looks at the variables of the type and the equations only. -/
theorem generalizeOver_congr {fixed fixed' : VarSet} {t : Ty} {cs : List Constraint}
    (h : ∀ v ∈ t.occurrences ++ cs.flatMap Constraint.occurrences, v ∈ fixed ↔ v ∈ fixed') :
    generalizeOver fixed t cs = generalizeOver fixed' t cs := by
  have hdiff : (VarSet.ofList (t.occurrences ++ cs.flatMap Constraint.occurrences)).diff fixed =
      (VarSet.ofList (t.occurrences ++ cs.flatMap Constraint.occurrences)).diff fixed' :=
    List.filter_congr fun v hv => by
      simp only [List.contains_eq_mem, h v (VarSet.mem_ofList.1 hv)]
  simp only [generalizeOver, hdiff]

/-- A run that mentions its environment and new variables only generalises apart from the equations
    that were there before. -/
theorem Scoped.generalize_eq {Γ : TypeEnvironment} {s s' : InferState} {t : Ty}
    {vs : List TypeVar} {earlier since : List Constraint}
    (h : Scoped (· ∈ environmentVariables Γ) s.nextVariable s s' vs) (hs : InOrder Γ s)
    (ht : ∀ v ∈ t.occurrences, v ∈ vs)
    (hcs : s'.constraints.toList.splitAt s.constraints.size = (earlier, since)) :
    generalize Γ earlier since t = generalizeApart Γ earlier since t := by
  obtain ⟨cs, happend, hmade⟩ := h.constraints
  rw [happend, List.splitAt_eq, ← Array.length_toList, List.take_left, List.drop_left,
    Prod.mk.injEq] at hcs
  obtain ⟨rfl, rfl⟩ := hcs
  refine generalizeOver_congr fun v hv => ⟨fun h => VarSet.mem_union.2 (.inl h), fun hfixed => ?_⟩
  have hv' : Made (· ∈ environmentVariables Γ) s.nextVariable s'.nextVariable v :=
    (List.mem_append.1 hv).elim (fun hv => h.mentions v (ht v hv)) (hmade v)
  rcases hv', VarSet.mem_union.1 hfixed with ⟨hv' | ⟨hmade, -⟩, hfixed | hearlier⟩
  · exact hv'
  · exact hv'
  · exact hfixed
  · have := hs.constraints v (VarSet.mem_ofList.1 hearlier)
    omega

theorem Scoped.map_generalize_eq {Γ : TypeEnvironment} {s s' : InferState}
    {declared : List (String × Ty × Ty)} {vs : List TypeVar} {earlier since : List Constraint}
    (h : Scoped (· ∈ environmentVariables Γ) s.nextVariable s s'
      ((declared.flatMap fun (_, p, r) => (Ty.function p r).occurrences) ++ vs)) (hs : InOrder Γ s)
    (hcs : s'.constraints.toList.splitAt s.constraints.size = (earlier, since)) :
    (declared.map fun (f, p, r) => (f, generalize Γ earlier since (.function p r))) =
      declared.map fun (f, p, r) => (f, generalizeApart Γ earlier since (.function p r)) := by
  refine List.map_congr_left fun d hd => congrArg (Prod.mk d.1) ?_
  exact h.generalize_eq hs (fun v hv => List.mem_append_left _ (List.mem_flatMap.2 ⟨d, hd, hv⟩)) hcs

/-- The types that a group declares for its functions are not subject to equations yet. -/
theorem constraints_declareGroup : ∀ {arms : List Node} {declared : List (String × Ty × Ty)}
    {s s' : InferState}, Runs (declareGroup arms) s declared s' → s'.constraints = s.constraints
  | [], _, _, _, h => by
    obtain ⟨-, rfl⟩ := runs_pure.1 h
    rfl
  | .letRecArm .. :: rest, _, _, _, h => by
    have hascribed : ∀ {a : Option TypeExpr} {t : Ty} {s s' : InferState},
        Runs (ascribedOrFresh a) s t s' → s'.constraints = s.constraints := by
      rintro (_ | a) t s s' h
      · obtain ⟨-, rfl⟩ := runs_fresh.1 h
        rfl
      · obtain ⟨-, rfl⟩ := runs_pure.1 h
        rfl
    simp only [declareGroup, runs_bind, runs_pure] at h
    obtain ⟨p, s₁, hp, r, s₂, hr, more, s₃, hmore, -, rfl⟩ := h
    rw [constraints_declareGroup hmore, hascribed hr, hascribed hp]

end Types

mutual

/-- **Without projections, names are generalised apart** from everything that was fixed before. -/
theorem Infers.apart {Γ : TypeEnvironment} {n n' : Node} {t : Ty} {s s' : InferState} :
    Infers generalize Γ n s n' t s' → n.NoProjection → s'.Bounded Δ → InOrder Γ s →
      Infers generalizeApart Γ n s n' t s'
  | .top he, hn, hs', hs => .top (he.apart (hn.child (.head _)) hs' hs)
  | .literal, _, _, _ => .literal
  | .mono hx, _, _, _ => .mono hx
  | .poly hx ht, _, _, _ => .poly hx ht
  | .printer hb ht, _, _, _ => .printer hb ht
  | .panic ht hu, _, _, _ => .panic ht hu
  | .lambda ht hbody, hn, hs', hs => by
    have h₁ := hs.ascribedOrFresh ht (hbody.follows.bounded hs').next
    exact .lambda ht (hbody.apart (hn.child (.head _)) hs' (h₁.inOrder.extendMono h₁.earlier))
  | .application hf ha hr hc, hn, hs', hs => by
    have hb₂ := ((follows_fresh hr).trans (follows_constrain hc)).bounded hs'
    have hb₁ := ha.follows.bounded hb₂
    have hs₁ := (hf.leaves (hn.child (.head _)) hb₁ hs).inOrder
    exact .application (hf.apart (hn.child (.head _)) hb₁ hs)
      (ha.apart (hn.child (.tail _ (.head _))) hb₂ hs₁) hr hc
  | .letIn hvalue ha hcs hbody, hn, hs', hs => by
    have hb₂ := hbody.follows.bounded hs'
    have hb₁ := (follows_agrees ha).bounded hb₂
    have h₁ := hvalue.leaves (hn.child (.head _)) hb₁ hs
    have hs₂ := h₁.inOrder.agrees ha h₁.earlier
    have hscoped :=
      (hvalue.scoped (hn.child (.head _)) (Nat.le_refl _) hb₁ fun _ hv => .inl hv).agrees
      ha fun _ hv => hv
    have hbody' := hbody.apart (hn.child (.tail _ (.head _))) hs' hs₂.generalize
    -- the value mentions no variable of the earlier equations that the environment does not hold
    rw [hscoped.generalize_eq hs (fun _ hv => hv) hcs] at hbody'
    exact .letIn (hvalue.apart (hn.child (.head _)) hb₁ hs) ha hcs hbody'
  | .letRec hdeclared harms hcs hbody, hn, hs', hs => by
    have hb₂ := hbody.follows.bounded hs'
    have hb₁ := harms.follows.bounded hb₂
    have hle₁ := (follows_declareGroup hdeclared).next
    have harms' : ∀ c ∈ _, Node.NoProjection c := fun c hc => hn.child (List.mem_append_left _ hc)
    obtain ⟨hs₁, htypes⟩ := hs.group hdeclared hb₁.next
    have hs₂ := harms.inOrder harms' hb₂ hs₁ htypes (hs.declared hdeclared hb₁.next)
    have h₁ := scoped_declareGroup (B := (· ∈ environmentVariables Γ)) hdeclared (Nat.le_refl _)
      hb₁.next
    obtain ⟨hgroup, hmade⟩ := h₁.group fun v hv => .inl hv
    have h₂ := h₁.trans (harms.scoped harms' hle₁ hb₂ hgroup hmade) harms.follows.next
    have hbody' := hbody.apart (hn.child (by simp [Node.children])) hs' hs₂.behindGroup
    refine .letRec hdeclared (harms.apart harms' hb₂ hs₁ htypes) hcs ?_
    rw [constraints_declareGroup hdeclared] at hcs
    rw [← h₂.map_generalize_eq hs hcs]
    exact hbody'
  | .conditional hc ht ha hb hu, hn, hs', hs => by
    have hb₄ := (follows_constrain hu).bounded hs'
    have hb₃ := hb.follows.bounded hb₄
    have hb₂ := ha.follows.bounded hb₃
    have hb₁ := (follows_constrain ht).bounded hb₂
    have h₁ := hc.leaves (hn.child (.head _)) hb₁ hs
    have hs₂ := h₁.inOrder.constrain ht h₁.earlier fun _ hv => nomatch hv
    have hs₃ := (ha.leaves (hn.child (.tail _ (.head _))) hb₃ hs₂).inOrder
    exact .conditional (hc.apart (hn.child (.head _)) hb₁ hs) ht
      (ha.apart (hn.child (.tail _ (.head _))) hb₃ hs₂)
      (hb.apart (hn.child (.tail _ (.tail _ (.head _)))) hb₄ hs₃) hu
  | .ofInts ho hl hr ht hu, hn, hs', hs => by
    have hb₂ := ((follows_constrain ht).trans (follows_constrain hu)).bounded hs'
    have hb₁ := hr.follows.bounded hb₂
    have hs₁ := (hl.leaves (hn.child (.head _)) hb₁ hs).inOrder
    exact .ofInts ho (hl.apart (hn.child (.head _)) hb₁ hs)
      (hr.apart (hn.child (.tail _ (.head _))) hb₂ hs₁) ht hu
  | .equality ho hl hr ht, hn, hs', hs => by
    have hb₂ := (follows_constrain ht).bounded hs'
    have hb₁ := hr.follows.bounded hb₂
    have hs₁ := (hl.leaves (hn.child (.head _)) hb₁ hs).inOrder
    exact .equality ho (hl.apart (hn.child (.head _)) hb₁ hs)
      (hr.apart (hn.child (.tail _ (.head _))) hb₂ hs₁) ht
  | .unary he ht, hn, hs', hs =>
    .unary (he.apart (hn.child (.head _)) ((follows_constrain ht).bounded hs') hs) ht
  | .sequence hes, hn, hs', hs => .sequence (hes.apart (fun c hc => hn.child hc) hs' hs)
  | .tuple hes, hn, hs', hs => .tuple (hes.apart (fun c hc => hn.child hc) hs' hs)
  | .projection _ _ _, hn, _, _ => absurd rfl hn.here
  | .dataType hcs hbody, hn, hs', hs =>
    .dataType hcs (hbody.apart (hn.child (by simp [Node.children])) hs' (hs.dataType hcs))
  | .matchWith he hr harms, hn, hs', hs => by
    have hb₂ := harms.follows.bounded hs'
    have hb₁ := (follows_fresh hr).bounded hb₂
    have h₁ := he.leaves (hn.child (.head _)) hb₁ hs
    have h₂ := h₁.inOrder.fresh hr hb₂.next
    exact .matchWith (he.apart (hn.child (.head _)) hb₁ hs) hr
      (harms.apart (fun c hc => hn.child (List.mem_cons_of_mem _ hc)) hs' h₂.inOrder
        (h₁.earlier.mono h₂.next) h₂.earlier)

theorem InfersAll.apart {Γ : TypeEnvironment} {ns ns' : List Node} {ts : List Ty}
    {s s' : InferState} : InfersAll generalize Γ ns s ns' ts s' → (∀ n ∈ ns, n.NoProjection) →
      s'.Bounded Δ → InOrder Γ s → InfersAll generalizeApart Γ ns s ns' ts s'
  | .nil, _, _, _ => .nil
  | .cons hn hns, hall, hs', hs => by
    have hb₁ := hns.follows.bounded hs'
    have hs₁ := (hn.leaves (hall _ List.mem_cons_self) hb₁ hs).inOrder
    exact .cons (hn.apart (hall _ List.mem_cons_self) hb₁ hs)
      (hns.apart (fun c hc => hall c (List.mem_cons_of_mem _ hc)) hs' hs₁)

theorem InfersGroup.apart {Γ : TypeEnvironment} {ns ns' : List Node} {types : List (Ty × Ty)}
    {s s' : InferState} : InfersGroup generalize Γ ns types s ns' s' →
      (∀ n ∈ ns, n.NoProjection) → s'.Bounded Δ → InOrder Γ s →
      (∀ type ∈ types, Earlier s (Ty.function type.1 type.2).occurrences) →
      InfersGroup generalizeApart Γ ns types s ns' s'
  | .nil, _, _, _, _ => .nil
  | .cons (x := x) (p := p) hbody ht hrest, hall, hs', hs, htypes => by
    have hb₂ := hrest.follows.bounded hs'
    have hb₁ := (follows_constrain ht).bounded hb₂
    have hle₁ := hbody.follows.next
    have hle₂ := Nat.le_trans hle₁ (follows_constrain ht).next
    have hfirst := htypes _ List.mem_cons_self
    have hchild := (hall _ List.mem_cons_self).child (.head _)
    have hs₀ : InOrder (Γ.extend (x, .mono p)) _ :=
      hs.extendMono fun v hv => hfirst v (List.mem_append_left _ hv)
    have h₁ := hbody.leaves hchild hb₁ hs₀
    have hs₂ := (h₁.inOrder.constrain ht h₁.earlier fun v hv =>
      (hfirst.mono hle₁) v (List.mem_append_right _ hv)).outer
    exact .cons (hbody.apart hchild hb₁ hs₀) ht <|
      hrest.apart (fun c hc => hall c (List.mem_cons_of_mem _ hc)) hs' hs₂ fun type htype =>
        (htypes type (List.mem_cons_of_mem _ htype)).mono hle₂

theorem InfersArms.apart {Γ : TypeEnvironment} {ns ns' : List Node} {t r : Ty}
    {s s' : InferState} : InfersArms generalize Γ t r ns s ns' s' →
      (∀ n ∈ ns, n.NoProjection) → s'.Bounded Δ → InOrder Γ s → Earlier s t.occurrences →
      Earlier s r.occurrences → InfersArms generalizeApart Γ t r ns s ns' s'
  | .nil, _, _, _, _, _ => .nil
  | .cons hp ht hbody hr hrest, hall, hs', hs, htv, hrv => by
    have hb₄ := hrest.follows.bounded hs'
    have hb₃ := (follows_constrain hr).bounded hb₄
    have hb₂ := hbody.follows.bounded hb₃
    have hb₁ := (follows_constrain ht).bounded hb₂
    have hle₁ := hp.follows.next
    have hle₃ := Nat.le_trans hle₁ ((follows_constrain ht).trans hbody.follows).next
    have hle₄ := Nat.le_trans hle₃ (follows_constrain hr).next
    have hchild := (hall _ List.mem_cons_self).child (.tail _ (.head _))
    obtain ⟨h₁, hbindings⟩ := hs.pattern hp hb₁
    have hs₂ := (h₁.inOrder.constrain ht (htv.mono hle₁) h₁.earlier).extendAll fun entry hentry =>
      (hbindings entry hentry).mono (follows_constrain ht).next
    have h₃ := hbody.leaves hchild hb₃ hs₂
    have hs₄ := (h₃.inOrder.constrain hr h₃.earlier (hrv.mono hle₃)).outerAll
    exact .cons hp ht (hbody.apart hchild hb₃ hs₂) hr <|
      hrest.apart (fun c hc => hall c (List.mem_cons_of_mem _ hc)) hs' hs₄ (htv.mono hle₄)
        (hrv.mono hle₄)

end

end ClosureML
