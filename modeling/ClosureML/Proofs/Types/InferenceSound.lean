import ClosureML.Proofs.Types.Generalization

/-!
# Inference is sound

When names are generalised apart from everything that was fixed before, a run of inference is a
derivation: under every valuation that solves the equations, the tree has the type that stands for
the type of its root.

* `Types.Declared`: the signatures that inference has noted down are those of declarations.

Main statement: `Infers.sound`.
-/

namespace ClosureML

open ClosureML.Types

/-! ## 1. Signatures and declarations -/

theorem Declaration.signature_injective {d d' : Declaration} (h : d.signature = d'.signature) :
    d = d' := by
  obtain ⟨c, ps, t⟩ := d
  obtain ⟨c', ps', t'⟩ := d'
  simp only [signature, Prod.mk.injEq, Signature.mk.injEq, Ty.data.injEq, ← TypeExpr.toTys_eq_map]
    at h
  rw [h.1, h.2.2, TypeExpr.toTys_injective ps ps' h.2.1]

/-- The signatures that were noted down are those of declarations in `Δ`. -/
def Types.Declared (Δ : List Declaration) (s : InferState) : Prop :=
  ∀ entry ∈ s.signatures, ∃ d ∈ Δ, entry = d.signature

namespace Types

variable {Δ ds : List Declaration} {s s' : InferState}

theorem InferState.Follows.declared (h : Follows ds s s') (hΔ : Declared Δ s') : Declared Δ s :=
  fun entry hentry => hΔ entry (h.signatures ▸ List.mem_append_right _ hentry)

theorem InferState.Follows.mem_declared (h : Follows ds s s') (hΔ : Declared Δ s') :
    ∀ d ∈ ds, d ∈ Δ := by
  intro d hd
  have hmem : d.signature ∈ s'.signatures := by
    rw [h.signatures]
    exact List.mem_append_left _ (List.mem_reverse.2 (List.mem_map_of_mem hd))
  obtain ⟨d', hd', heq⟩ := hΔ _ hmem
  exact Declaration.signature_injective heq ▸ hd'

/-- The signature that a constructor has comes from a declaration. -/
theorem Declared.lookup (hΔ : Declared Δ s) {c : String} {parameters : List Ty} {dataType : Ty}
    (hc : s.signatures.lookup c = some ⟨parameters, dataType⟩) :
    ∃ d ∈ Δ, c = d.name ∧ parameters = d.parameters.map TypeExpr.toTy ∧
      dataType = .data d.dataType := by
  obtain ⟨l₁, l₂, heq, -⟩ := List.lookup_eq_some_iff.1 hc
  obtain ⟨d, hd, hentry⟩ := hΔ (c, ⟨parameters, dataType⟩) (by rw [heq]; simp)
  simp only [Declaration.signature, Prod.mk.injEq, Signature.mk.injEq] at hentry
  exact ⟨d, hd, hentry⟩

end Types

/-! ## 2. Patterns -/

variable {Δ : List Declaration} {θ : TypeVar → SimpleType}

/-- What names of one type each are bound to. -/
def Types.monoBindings (bindings : List (String × Ty)) : List (String × Binding) :=
  bindings.map fun (x, t) => (x, .mono t)

/-- What the types of names stand for. -/
def Types.typesUnder (θ : TypeVar → SimpleType) (bindings : List (String × Ty)) :
    List (String × SimpleType) :=
  bindings.map fun (x, t) => (x, t.interpret θ)

/-- Names of one type each fit the context that gives them what their types stand for. -/
theorem Types.Fits.extendAll {Γ : TypeEnvironment} {Γ' : Context} (h : Fits θ Γ.toList Γ')
    (bindings : List (String × Ty)) :
    Fits θ (Γ.extendAll (monoBindings bindings)).toList
      (Context.ofTypes (typesUnder θ bindings) ++ Γ') := by
  rw [Scope.toList_extendAll, Context.ofTypes, typesUnder, List.map_map, monoBindings]
  refine Fits.append ?_ h
  exact fits_reverse bindings fun _ _ => ⟨rfl, rfl⟩

theorem interpretAll_parameters (θ : TypeVar → SimpleType) (parameters : List TypeExpr) :
    Ty.interpretAll θ (parameters.map TypeExpr.toTy) = parameters.map TypeExpr.simple := by
  rw [Ty.interpretAll_eq_map, List.map_map]
  exact congrArg (List.map · parameters) (funext fun e => e.interpret_toTy θ)

mutual

/-- **A run on a pattern is a derivation**, under every solution of the equations. -/
theorem InfersPattern.sound {n n' : Node} {t : Ty} {bindings : List (String × Binding)}
    {s s' : InferState} : InfersPattern n s n' t bindings s' → Declared Δ s' →
      Solves θ s'.constraints.toList → ∃ types, bindings = monoBindings types ∧
        PatternHasType Δ n' (t.interpret θ) (typesUnder θ types)
  | .binder (x := x) (t := t) _, _, _ => ⟨[(x, t)], rfl, .binder⟩
  | .literal, _, _ => ⟨[], rfl, .literal⟩
  | .tuple hps, hΔ, hθ => by
    obtain ⟨types, rfl, h⟩ := hps.sound hΔ hθ
    exact ⟨types, rfl, .tuple h⟩
  | .constructor hc _ hps, hΔ, hθ => by
    obtain ⟨d, hd, rfl, rfl, rfl⟩ := (hps.follows.declared hΔ).lookup hc
    obtain ⟨types, rfl, h⟩ := hps.sound hΔ hθ
    rw [interpretAll_parameters] at h
    exact ⟨types, rfl, .constructor hd h⟩

theorem InfersPatterns.sound {ns ns' : List Node} {ts : List Ty}
    {bindings : List (String × Binding)} {s s' : InferState} :
    InfersPatterns ns s ns' ts bindings s' → Declared Δ s' → Solves θ s'.constraints.toList →
      ∃ types, bindings = monoBindings types ∧
        PatternsHaveTypes Δ ns' (Ty.interpretAll θ ts) (typesUnder θ types)
  | .nil, _, _ => ⟨[], rfl, .nil⟩
  | .cons hp hps, hΔ, hθ => by
    obtain ⟨first, rfl, hfirst⟩ := hp.sound (hps.follows.declared hΔ) (hps.follows.solves hθ)
    obtain ⟨more, rfl, hmore⟩ := hps.sound hΔ hθ
    refine ⟨first ++ more, List.map_append.symm, ?_⟩
    rw [typesUnder, List.map_append]
    exact .cons hfirst hmore

theorem InfersArguments.sound {ns ns' : List Node} {ts : List Ty}
    {bindings : List (String × Binding)} {s s' : InferState} :
    InfersArguments ns ts s ns' bindings s' → Declared Δ s' → Solves θ s'.constraints.toList →
      ∃ types, bindings = monoBindings types ∧
        PatternsHaveTypes Δ ns' (Ty.interpretAll θ ts) (typesUnder θ types)
  | .nil, _, _ => ⟨[], rfl, .nil⟩
  | .cons hp ht hps, hΔ, hθ => by
    have hθ₂ := hps.follows.solves hθ
    have hfollows := (follows_constrain ht).trans hps.follows
    obtain ⟨first, rfl, hfirst⟩ := hp.sound (hfollows.declared hΔ) (hfollows.solves hθ)
    obtain ⟨more, rfl, hmore⟩ := hps.sound hΔ hθ
    rw [interpret_eq_of_constrain ht hθ₂] at hfirst
    refine ⟨first ++ more, List.map_append.symm, ?_⟩
    rw [typesUnder, List.map_append]
    exact .cons hfirst hmore

end

/-! ## 3. Copies of schemas -/

/-- Copies replace the quantified variables and no other. -/
theorem Types.findIn_freshCopies : ∀ {vs : VarSet} {copies : List (TypeVar × Ty)}
    {s s' : InferState}, Runs (freshCopies vs) s copies s' →
    ∀ v, v ∉ vs → Substitution.findIn v copies = none
  | [], _, _, _, h, _, _ => by
    obtain ⟨rfl, -⟩ := runs_pure.1 h
    rfl
  | w :: vs, _, _, _, h, v, hv => by
    simp only [freshCopies, runs_bind, runs_pure] at h
    obtain ⟨t, s₁, -, more, s₂, hmore, rfl, -⟩ := h
    rw [List.mem_cons, not_or] at hv
    rw [Substitution.findIn, if_neg hv.1, findIn_freshCopies hmore v hv.2]

/-- **A copy of a schema is an instance** of every scheme that the schema stands for. -/
theorem Types.instance_of_instantiate {schema : Schema} {σ : Scheme} {t : Ty} {s s' : InferState}
    (hfits : BindingFits θ (.poly schema) σ) (h : Runs (instantiate schema) s t s')
    (hθ : Solves θ s'.constraints.toList) : σ.Instance (t.interpret θ) := by
  obtain ⟨copies, s₁, hcopies, rfl, rfl⟩ := runs_instantiate h
  rw [Ty.interpret_substitute]
  refine hfits _ (fun v hv => ?_) ?_
  · rw [Ty.after, findIn_freshCopies hcopies v hv]
    rfl
  · refine solves_map_substitute.1 fun c hc => hθ c ?_
    rw [Array.toList_appendList]
    exact List.mem_append_right _ hc

theorem Types.ascribed_of_ascribedOrFresh {ascription : Option TypeExpr} {t : Ty}
    {s s' : InferState} (h : Runs (ascribedOrFresh ascription) s t s') :
    Ascribed ascription (t.interpret θ) := by
  rintro e rfl
  obtain ⟨rfl, -⟩ := runs_pure.1 h
  exact e.interpret_toTy θ

theorem Types.ascribed_of_agrees {ascription : Option TypeExpr} {t : Ty} {position : Position}
    {s s' : InferState} (h : Agrees t position ascription s s')
    (hθ : Solves θ s'.constraints.toList) : Ascribed ascription (t.interpret θ) := by
  rintro e rfl
  rw [interpret_eq_of_constrain h hθ]
  exact e.interpret_toTy θ

/-! ## 4. Expressions -/

theorem interpret_getLastD (θ : TypeVar → SimpleType) (ts : List Ty) :
    (ts.getLastD .unit).interpret θ = (Ty.interpretAll θ ts).getLastD .unit := by
  rw [Ty.interpretAll_eq_map, List.getLastD_eq_getLast?, List.getLastD_eq_getLast?,
    List.getLast?_map]
  cases ts.getLast? <;> rfl

theorem interpretAll_getElem? (θ : TypeVar → SimpleType) (ts : List Ty) (i : Nat) :
    (Ty.interpretAll θ ts)[i]? = ts[i]?.map (Ty.interpret θ) := by
  rw [Ty.interpretAll_eq_map, List.getElem?_map]

/-- What is generalised apart from what was fixed before: a solution for the value, under which the
    environment and the equations from before stand for the same, and the variables of the
    schemes. -/
theorem Types.exists_generalization {Γ : TypeEnvironment} {Γ' : Context}
    {earlier since : List Constraint} (hfits : Fits θ Γ.toList Γ')
    (hθ : Solves θ (earlier ++ since)) :
    ∃ (θ₁ : TypeVar → SimpleType) (quantified : Ty → List Nat),
      Fits θ₁ Γ.toList Γ' ∧ Solves θ₁ (earlier ++ since) ∧
      (∀ t, ∀ n ∈ quantified t, ¬ Γ'.Holds n) ∧
      ∀ t, BindingFits θ (generalizeApart Γ earlier since t) ⟨quantified t, t.interpret θ₁⟩ := by
  obtain ⟨hearlier, hsince⟩ := solves_append.1 hθ
  let fixed := (environmentVariables Γ).union (Constraint.variables earlier)
  obtain ⟨bound, hbound⟩ := Γ'.exists_above_holds
  obtain ⟨θ₁, N, hN, hfixed, hsolves, hgeneral⟩ := exists_general hsince fixed bound
  refine ⟨θ₁, generalVariables fixed since θ₁ N, ?_, ?_, ?_, ?_⟩
  · refine hfits.congr fun entry hentry v hv => (hfixed v ?_).symm
    exact VarSet.mem_union.2 (.inl (mem_environmentVariables.2 ⟨entry, hentry, hv⟩))
  · refine solves_append.2 ⟨hearlier.congr fun v hv => (hfixed v ?_).symm, hsolves⟩
    exact VarSet.mem_union.2 (.inr (VarSet.mem_ofList.2 hv))
  · intro t n hn hholds
    have := hbound n hholds
    have := le_of_mem_generalVariables hn
    omega
  · exact fits_generalizeOver hfixed hsince hgeneral

/-- A function of a group as a derivation has it. -/
def Types.groupEntry (θ : TypeVar → SimpleType) (quantified : Ty → List Nat) :
    String × Ty × Ty → GroupEntry
  | (f, p, r) => ⟨f, p.interpret θ, r.interpret θ, quantified (.function p r)⟩

/-- The type of a constructor stands for the type of its declaration. -/
theorem interpret_constructorType (θ : TypeVar → SimpleType) (parameters : List TypeExpr)
    (dataType : String) :
    (constructorType (parameters.map TypeExpr.toTy) (.data dataType)).interpret θ =
      (parameters.map TypeExpr.simple).foldr .function (.data dataType) := by
  induction parameters with
  | nil => rfl
  | cons e rest ih =>
    rw [List.map_cons, List.map_cons, List.foldr_cons, ← ih, ← e.interpret_toTy θ]
    rfl

theorem dataType_of_mem_declared {d : String} {cs : List Node} {c : Declaration}
    (h : c ∈ Node.declared d cs) : c.dataType = d := by
  obtain ⟨n, -, hn⟩ := List.mem_filterMap.1 h
  cases n <;> simp only [Node.declaration?, reduceCtorEq, Option.some.injEq] at hn
  rw [← hn]

theorem Types.fits_declared {Γ : TypeEnvironment} {Γ' : Context} {d : String} {cs : List Node}
    (hfits : Fits θ Γ.toList Γ') :
    Fits θ
      (Γ.extendAll ((Node.declared d cs).map fun c =>
        (c.name, .mono (constructorType (c.parameters.map TypeExpr.toTy) (.data d))))).toList
      (Context.ofTypes ((Node.declared d cs).map Declaration.binding) ++ Γ') := by
  rw [Scope.toList_extendAll, Context.ofTypes, List.map_map]
  refine Fits.append ?_ hfits
  refine fits_reverse _ fun c hc => ⟨rfl, ?_⟩
  have hd := dataType_of_mem_declared hc
  refine congrArg Scheme.mono ?_
  rw [interpret_constructorType, ← hd]
  rfl

mutual

/-- **Inference is sound.** Under every solution of the equations, and in every context that fits
    the environment, the tree has the type of its root. -/
theorem Infers.sound {Γ : TypeEnvironment} {n n' : Node} {t : Ty} {s s' : InferState} :
    Infers generalizeApart Γ n s n' t s' → s.Sound → Declared Δ s' →
      ∀ {θ : TypeVar → SimpleType} {Γ' : Context}, Fits θ Γ.toList Γ' →
        Solves θ s'.constraints.toList → HasType Δ Γ' n' (t.interpret θ)
  | .top he, hs, hΔ, _, _, hfits, hθ => .top (he.sound hs hΔ hfits hθ)
  | .literal, _, _, _, _, _, _ => .literal
  | .mono hx, _, _, _, _, hfits, _ => by
    obtain ⟨σ, hσ, hσt⟩ := hfits.lookup hx
    rw [show σ = _ from hσt] at hσ
    exact .reference hσ (Scheme.mono_instance.2 rfl)
  | .poly hx ht, _, _, _, _, hfits, hθ => by
    obtain ⟨σ, hσ, hσt⟩ := hfits.lookup hx
    exact .reference hσ (instance_of_instantiate hσt ht hθ)
  | .printer hb _, _, _, _, _, _, _ => .printer hb
  | .panic _ _, _, _, _, _, _, _ => .panic
  | .lambda ht hbody, hs, hΔ, _, _, hfits, hθ =>
    .lambda (ascribed_of_ascribedOrFresh ht)
      (hbody.sound ((follows_ascribedOrFresh ht).sound hs) hΔ (.cons rfl hfits) hθ)
  | .application hf ha hr hc, hs, hΔ, _, _, hfits, hθ => by
    have hstep := (follows_fresh hr).trans (follows_constrain hc)
    have hrest := ha.follows.trans hstep
    have hfun := hf.sound hs (hrest.declared hΔ) hfits (hrest.solves hθ)
    rw [interpret_eq_of_constrain hc hθ] at hfun
    exact .application hfun
      (ha.sound (hf.follows.sound hs) (hstep.declared hΔ) hfits (hstep.solves hθ))
  | .letIn hvalue ha hcs hbody, hs, hΔ, θ, Γ', hfits, hθ => by
    have hθ₂ := hbody.follows.solves hθ
    rw [append_of_splitAt hcs] at hθ₂
    -- the value is typed under `θ₁`, where the quantified variables stay open, the body under `θ`
    obtain ⟨θ₁, quantified, hfits₁, hθ₁, hfree, hgeneral⟩ := exists_generalization hfits hθ₂
    rw [← append_of_splitAt hcs] at hθ₁
    have hrest := (follows_agrees ha).trans hbody.follows
    have hs₂ := (follows_agrees ha).sound (hvalue.follows.sound hs)
    exact .letIn (ascribed_of_agrees ha hθ₁)
      (hvalue.sound hs (hrest.declared hΔ) hfits₁ ((follows_agrees ha).solves hθ₁)) (hfree _)
      (hbody.sound hs₂ hΔ (.cons (hgeneral _) hfits) hθ)
  | .letRec hdeclared harms hcs hbody, hs, hΔ, θ, Γ', hfits, hθ => by
    have hθ₂ := hbody.follows.solves hθ
    rw [append_of_splitAt hcs] at hθ₂
    obtain ⟨θ₁, quantified, hfits₁, hθ₁, hfree, hgeneral⟩ := exists_generalization hfits hθ₂
    rw [← append_of_splitAt hcs] at hθ₁
    have hs₁ := (follows_declareGroup hdeclared).sound hs
    refine .letRec (harms.sound hdeclared rfl hs₁ (hbody.follows.declared hΔ) quantified ?_ hθ₁) ?_
      (hbody.sound (harms.follows.sound hs₁) hΔ ?_ hθ)
    · rw [Scope.toList_extendAll, Context.ofGroup, List.map_map]
      refine Fits.append ?_ hfits₁
      exact fits_reverse _ fun _ _ => ⟨rfl, rfl⟩
    · intro e he
      obtain ⟨⟨f, p, r⟩, -, rfl⟩ := List.mem_map.1 he
      exact hfree _
    · rw [Scope.toList_extendAll, Context.behindGroup, List.map_map]
      refine Fits.append ?_ hfits
      exact fits_reverse _ fun _ _ => ⟨rfl, hgeneral _⟩
  | .conditional hc ht ha hb hu, hs, hΔ, _, _, hfits, hθ => by
    have hrest₄ := follows_constrain hu
    have hrest₃ := hb.follows.trans hrest₄
    have hrest₂ := ha.follows.trans hrest₃
    have hrest₁ := (follows_constrain ht).trans hrest₂
    have hs₂ := (follows_constrain ht).sound (hc.follows.sound hs)
    have hs₃ := ha.follows.sound hs₂
    have hcond := hc.sound hs (hrest₁.declared hΔ) hfits (hrest₁.solves hθ)
    have helse := hb.sound hs₃ (hrest₄.declared hΔ) hfits (hrest₄.solves hθ)
    rw [interpret_eq_of_constrain ht (hrest₂.solves hθ)] at hcond
    rw [← interpret_eq_of_constrain hu hθ] at helse
    exact .conditional hcond (ha.sound hs₂ (hrest₃.declared hΔ) hfits (hrest₃.solves hθ)) helse
  | .ofInts ho hl hr ht hu, hs, hΔ, _, _, hfits, hθ => by
    have hrest₂ := (follows_constrain ht).trans (follows_constrain hu)
    have hrest₁ := hr.follows.trans hrest₂
    have hlhs := hl.sound hs (hrest₁.declared hΔ) hfits (hrest₁.solves hθ)
    have hrhs := hr.sound (hl.follows.sound hs) (hrest₂.declared hΔ) hfits (hrest₂.solves hθ)
    rw [interpret_eq_of_constrain ht ((follows_constrain hu).solves hθ)] at hlhs
    rw [interpret_eq_of_constrain hu hθ] at hrhs
    rcases ho with ⟨ho, rfl⟩ | ⟨ho, rfl⟩
    · exact .arithmetic ho hlhs hrhs
    · exact .relational ho hlhs hrhs
  | .equality ho hl hr ht, hs, hΔ, _, _, hfits, hθ => by
    have hrest₂ := follows_constrain ht
    have hrest₁ := hr.follows.trans hrest₂
    have hlhs := hl.sound hs (hrest₁.declared hΔ) hfits (hrest₁.solves hθ)
    rw [interpret_eq_of_constrain ht hθ] at hlhs
    exact .equality ho hlhs
      (hr.sound (hl.follows.sound hs) (hrest₂.declared hΔ) hfits (hrest₂.solves hθ))
  | .unary he ht, hs, hΔ, _, _, hfits, hθ => by
    have hrest := follows_constrain ht
    have hoperand := he.sound hs (hrest.declared hΔ) hfits (hrest.solves hθ)
    rw [interpret_eq_of_constrain ht hθ] at hoperand
    exact .unary hoperand
  | .sequence hes, hs, hΔ, θ, _, hfits, hθ => by
    rw [interpret_getLastD]
    exact .sequence (hes.sound hs hΔ hfits hθ)
  | .tuple hes, hs, hΔ, _, _, hfits, hθ => .tuple (hes.sound hs hΔ hfits hθ)
  | .projection he ht hu, hs, hΔ, _, _, hfits, hθ => by
    have hrest := follows_resolveNow ht
    have htarget := he.sound hs (hrest.declared hΔ) hfits (hrest.solves hθ)
    -- a solution of all equations gives the target the type that those so far have given it
    rw [← interpret_resolveNow ht (he.follows.sound hs) hθ] at htarget
    refine .projection htarget ?_ ?_
    · rw [interpretAll_getElem?, hu]
      rfl
    · rintro n ⟨⟩
      rw [Ty.interpretAll_eq_map, List.length_map]
  | .dataType hcs hbody, hs, hΔ, _, _, hfits, hθ => by
    obtain ⟨hfollows, hscope, hsame⟩ := runs_declareConstructors hcs
    have hdeclared := hfollows.mem_declared (hbody.follows.declared hΔ)
    refine .dataType (hsame ▸ hdeclared) ?_
    rw [hsame]
    exact hbody.sound (hfollows.sound hs) hΔ (hscope ▸ fits_declared hfits) hθ
  | .matchWith he hr harms, hs, hΔ, _, _, hfits, hθ => by
    have hrest := (follows_fresh hr).trans harms.follows
    have hs₁ := he.follows.sound hs
    exact .matchWith (he.sound hs (hrest.declared hΔ) hfits (hrest.solves hθ))
      (harms.sound ((follows_fresh hr).sound hs₁) hΔ hfits hθ)
termination_by structural h => h

theorem InfersAll.sound {Γ : TypeEnvironment} {ns ns' : List Node} {ts : List Ty}
    {s s' : InferState} : InfersAll generalizeApart Γ ns s ns' ts s' → s.Sound → Declared Δ s' →
      ∀ {θ : TypeVar → SimpleType} {Γ' : Context}, Fits θ Γ.toList Γ' →
        Solves θ s'.constraints.toList → HaveTypes Δ Γ' ns' (Ty.interpretAll θ ts)
  | .nil, _, _, _, _, _, _ => .nil
  | .cons hn hns, hs, hΔ, _, _, hfits, hθ =>
    .cons (hn.sound hs (hns.follows.declared hΔ) hfits (hns.follows.solves hθ))
      (hns.sound (hn.follows.sound hs) hΔ hfits hθ)
termination_by structural h => h

theorem InfersGroup.sound {Γ : TypeEnvironment} {ns ns' : List Node} {types : List (Ty × Ty)}
    {s s' : InferState} : InfersGroup generalizeApart Γ ns types s ns' s' →
      ∀ {declared : List (String × Ty × Ty)} {s₀ s₁ : InferState},
        Runs (declareGroup ns) s₀ declared s₁ → types = declared.map Prod.snd → s.Sound →
        Declared Δ s' → ∀ {θ : TypeVar → SimpleType} {Γ' : Context} (quantified : Ty → List Nat),
          Fits θ Γ.toList Γ' → Solves θ s'.constraints.toList →
          GroupHasTypes Δ Γ' ns' (declared.map (groupEntry θ quantified))
  | .nil, _, _, _, hdeclared, _, _, _, _, _, _, _, _ => by
    obtain ⟨rfl, -⟩ := runs_pure.1 hdeclared
    exact .nil
  | .cons hbody ht hrest, _, _, _, hdeclared, htypes, hs, hΔ, θ, Γ', quantified, hfits, hθ => by
    simp only [declareGroup, runs_bind, runs_pure] at hdeclared
    obtain ⟨p, _, hp, r, _, hr, more, _, hmore, rfl, -⟩ := hdeclared
    rw [List.map_cons, List.cons.injEq, Prod.mk.injEq] at htypes
    obtain ⟨⟨rfl, rfl⟩, htypes⟩ := htypes
    have hrest₂ := hrest.follows
    have hrest₁ := (follows_constrain ht).trans hrest₂
    have hs₂ := (follows_constrain ht).sound (hbody.follows.sound hs)
    have hbody' := hbody.sound hs (hrest₁.declared hΔ) (.cons rfl hfits) (hrest₁.solves hθ)
    rw [interpret_eq_of_constrain ht (hrest₂.solves hθ)] at hbody'
    rw [List.map_cons]
    exact .cons (e := groupEntry θ quantified (_, _, _)) (ascribed_of_ascribedOrFresh hp)
      (ascribed_of_ascribedOrFresh hr) hbody' (hrest.sound hmore htypes hs₂ hΔ quantified hfits hθ)
termination_by structural h => h

theorem InfersArms.sound {Γ : TypeEnvironment} {ns ns' : List Node} {t r : Ty}
    {s s' : InferState} : InfersArms generalizeApart Γ t r ns s ns' s' → s.Sound → Declared Δ s' →
      ∀ {θ : TypeVar → SimpleType} {Γ' : Context}, Fits θ Γ.toList Γ' →
        Solves θ s'.constraints.toList →
        ArmsHaveType Δ Γ' (t.interpret θ) ns' (r.interpret θ)
  | .nil, _, _, _, _, _, _ => .nil
  | .cons hp ht hbody hr hrest, hs, hΔ, θ, Γ', hfits, hθ => by
    have hrest₄ := hrest.follows
    have hrest₃ := (follows_constrain hr).trans hrest₄
    have hrest₂ := hbody.follows.trans hrest₃
    have hrest₁ := (follows_constrain ht).trans hrest₂
    have hs₂ := (follows_constrain ht).sound (hp.follows.sound hs)
    have hs₄ := (follows_constrain hr).sound (hbody.follows.sound hs₂)
    obtain ⟨types, hbindings, hpattern⟩ := hp.sound (hrest₁.declared hΔ) (hrest₁.solves hθ)
    rw [← interpret_eq_of_constrain ht (hrest₂.solves hθ)] at hpattern
    have hbody' :=
      hbody.sound hs₂ (hrest₃.declared hΔ) (hbindings ▸ hfits.extendAll types) (hrest₃.solves hθ)
    rw [interpret_eq_of_constrain hr (hrest₄.solves hθ)] at hbody'
    exact .cons hpattern hbody' (hrest.sound hs₄ hΔ hfits hθ)
termination_by structural h => h

end

end ClosureML
