import ClosureML.Proofs.Types.InferenceComplete
import ClosureML.Proofs.Types.InferenceErrors
import ClosureML.Proofs.Types.Typing

/-!
# Inference finds principal types

For programs without projections, inference succeeds exactly on those that have a typing derivation,
and every type of such a program is an instance of the one that it finds.

* `Node.variableCount`: how many type variables inference asks for;
* `Node.HasArity`: constructors stand in patterns with as many arguments as they have parameters.

Main statements: `RenamesProgram.inferTypes_ok` (a program with a derivation makes no step of
inference fail) and `IsProgram.inferTypes_principal`.
-/

namespace ClosureML

open Names ClosureML.Types Node

/-! ## 1. Constructors in patterns -/

/-- A pattern gives a declared constructor as many arguments as it has parameters. -/
def Node.HasArity (Δ : List Declaration) : Node → Prop
  | .patternConstructor _ c ps _ => ∀ d ∈ Δ, c = d.name → ps.length = d.parameters.length
  | _ => True

section Arity

variable {Δ : List Declaration} {tags : List (String × Nat)}

/-- Declarations under different names are told apart by their names. -/
theorem Declaration.eq_of_name_eq (hnames : (Δ.map Declaration.name).Nodup) {d d' : Declaration}
    (hd : d ∈ Δ) (hd' : d' ∈ Δ) (h : d.name = d'.name) : d = d' :=
  List.inj_on_of_nodup_map hnames hd hd' h

mutual

theorem PatternHasType.hasArity (hnames : (Δ.map Declaration.name).Nodup) : ∀ {p : Node}
    {t : SimpleType} {bindings : List (String × SimpleType)}, PatternHasType Δ p t bindings →
      p.Everywhere (HasArity Δ)
  | _, _, _, .binder | _, _, _, .literal => .mk trivial nofun
  | _, _, _, .tuple hps => .mk trivial (hps.hasArity hnames)
  | _, _, _, .constructor (d := d) hd hps => by
    refine .mk (fun d' hd' hname => ?_) (hps.hasArity hnames)
    rw [← Declaration.eq_of_name_eq hnames hd hd' hname, hps.length_eq, List.length_map]

theorem PatternsHaveTypes.hasArity (hnames : (Δ.map Declaration.name).Nodup) : ∀ {ps : List Node}
    {ts : List SimpleType} {bindings : List (String × SimpleType)},
    PatternsHaveTypes Δ ps ts bindings → ∀ p ∈ ps, p.Everywhere (HasArity Δ)
  | _, _, _, .nil => nofun
  | _, _, _, .cons hp hps => List.forall_mem_cons.2 ⟨hp.hasArity hnames, hps.hasArity hnames⟩

end

theorem TagsConstructors.hasArity {cs cs' : List Node} {new : List (String × Nat)}
    (h : TagsConstructors cs cs' new) : ∀ c ∈ cs', c.Everywhere (HasArity Δ) := by
  induction h with
  | nil => exact List.forall_mem_nil _
  | cons _ ih => exact List.forall_mem_cons.2 ⟨.mk trivial (List.forall_mem_nil _), ih⟩

mutual

/-- **A tree with a derivation** has as many arguments in its patterns as the constructors have
    parameters. -/
theorem Renames.hasArity (hnames : (Δ.map Declaration.name).Nodup) : ∀ {scope : NameScope}
    {n n' : Node} {Γ : Context} {t : SimpleType}, Renames tags scope n n' → HasType Δ Γ n' t →
      n'.Everywhere (HasArity Δ)
  | _, _, _, _, _, .literal, _ | _, _, _, _, _, .reference _ _, _ | _, _, _, _, _, .builtin, _ =>
    .mk trivial nofun
  | _, _, _, _, _, .lambda _ hbody, h => by
    obtain ⟨p, r, -, -, h⟩ := hasType_lambda.1 h
    exact .mk trivial (List.forall_mem_singleton.2 (hbody.hasArity hnames h))
  | _, _, _, _, _, .application hf ha, h => by
    obtain ⟨p, hft, hat⟩ := hasType_application.1 h
    exact .mk trivial (List.forall_mem_cons.2
      ⟨hf.hasArity hnames hft, List.forall_mem_singleton.2 (ha.hasArity hnames hat)⟩)
  | _, _, _, _, _, .letIn hvalue _ hbody, h => by
    obtain ⟨u, quantified, -, hvt, -, hbt⟩ := hasType_letIn.1 h
    exact .mk trivial (List.forall_mem_cons.2
      ⟨hvalue.hasArity hnames hvt, List.forall_mem_singleton.2 (hbody.hasArity hnames hbt)⟩)
  | _, _, _, _, _, .letRec _ _ harms hbody, h => by
    obtain ⟨group, hat, -, hbt⟩ := hasType_letRec.1 h
    exact .mk trivial (List.forall_mem_append.2
      ⟨harms.hasArity hnames hat, List.forall_mem_singleton.2 (hbody.hasArity hnames hbt)⟩)
  | _, _, _, _, _, .conditional hc ha hb, h => by
    obtain ⟨hct, hat, hbt⟩ := hasType_conditional.1 h
    exact .mk trivial (List.forall_mem_cons.2 ⟨hc.hasArity hnames hct, List.forall_mem_cons.2
      ⟨ha.hasArity hnames hat, List.forall_mem_singleton.2 (hb.hasArity hnames hbt)⟩⟩)
  | _, _, _, _, _, .binary hl hr, h => by
    obtain ⟨u, -, hlt, hrt⟩ := hasType_binary.1 h
    exact .mk trivial (List.forall_mem_cons.2
      ⟨hl.hasArity hnames hlt, List.forall_mem_singleton.2 (hr.hasArity hnames hrt)⟩)
  | _, _, _, _, _, .unary he, h =>
    .mk trivial (List.forall_mem_singleton.2 (he.hasArity hnames (hasType_unary.1 h).2))
  | _, _, _, _, _, .sequence _ hes, h => by
    obtain ⟨ts, -, hest⟩ := hasType_sequence.1 h
    exact .mk trivial (hes.hasArity hnames hest)
  | _, _, _, _, _, .tuple _ hes, h => by
    obtain ⟨ts, -, hest⟩ := hasType_tuple.1 h
    exact .mk trivial (hes.hasArity hnames hest)
  | _, _, _, _, _, .projection he, h => by
    obtain ⟨ts, het, -⟩ := hasType_projection.1 h
    exact .mk trivial (List.forall_mem_singleton.2 (he.hasArity hnames het))
  | _, _, _, _, _, .dataType hcs _ _ hbody, h => by
    obtain ⟨-, hbt⟩ := hasType_dataType.1 h
    exact .mk trivial (List.forall_mem_append.2
      ⟨hcs.hasArity, List.forall_mem_singleton.2 (hbody.hasArity hnames hbt)⟩)
  | _, _, _, _, _, .matchWith he harms, h => by
    obtain ⟨u, het, hat⟩ := hasType_matchWith.1 h
    exact .mk trivial (List.forall_mem_cons.2 ⟨he.hasArity hnames het, harms.hasArity hnames hat⟩)

theorem RenamesAll.hasArity (hnames : (Δ.map Declaration.name).Nodup) : ∀ {scope : NameScope}
    {ns ns' : List Node} {Γ : Context} {ts : List SimpleType}, RenamesAll tags scope ns ns' →
      HaveTypes Δ Γ ns' ts → ∀ n ∈ ns', n.Everywhere (HasArity Δ)
  | _, _, _, _, _, .nil, _ => nofun
  | _, _, _, _, _, .cons hn hns, h => by
    obtain ⟨t, us, -, hnt, hnst⟩ := haveTypes_cons.1 h
    exact List.forall_mem_cons.2 ⟨hn.hasArity hnames hnt, hns.hasArity hnames hnst⟩

theorem RenamesGroup.hasArity (hnames : (Δ.map Declaration.name).Nodup) : ∀ {scope : NameScope}
    {pairs : List (String × String)} {ns ns' : List Node} {Γ : Context} {group : List GroupEntry},
      RenamesGroup tags scope pairs ns ns' → GroupHasTypes Δ Γ ns' group →
        ∀ n ∈ ns', n.Everywhere (HasArity Δ)
  | _, _, _, _, _, _, .nil, _ => nofun
  | _, _, _, _, _, _, .cons _ hbody hrest, h => by
    obtain ⟨e, es, -, -, -, -, hbt, hrestt⟩ := groupHasTypes_cons.1 h
    exact List.forall_mem_cons.2
      ⟨.mk trivial (List.forall_mem_singleton.2 (hbody.hasArity hnames hbt)),
        hrest.hasArity hnames hrestt⟩

theorem RenamesArms.hasArity (hnames : (Δ.map Declaration.name).Nodup) : ∀ {scope : NameScope}
    {ns ns' : List Node} {Γ : Context} {t u : SimpleType}, RenamesArms tags scope ns ns' →
      ArmsHaveType Δ Γ t ns' u → ∀ n ∈ ns', n.Everywhere (HasArity Δ)
  | _, _, _, _, _, _, .nil, _ => nofun
  | _, _, _, _, _, _, .cons _ _ _ hbody hrest, h => by
    obtain ⟨⟨bindings, hpt, hbt⟩, hrestt⟩ := armsHaveType_cons.1 h
    exact List.forall_mem_cons.2 ⟨.mk trivial (List.forall_mem_cons.2
      ⟨hpt.hasArity hnames, List.forall_mem_singleton.2 (hbody.hasArity hnames hbt)⟩),
        hrest.hasArity hnames hrestt⟩

end

/-- Where constructors have their arguments and nothing is projected, no node makes inference
    fail. -/
theorem Node.allows_nothing {n : Node} (hdeclared : ∀ d ∈ n.declaredHere, d ∈ Δ)
    (harity : n.HasArity Δ) (hprojection : n.kind ≠ .projection) : n.Allows Δ fun _ => False := by
  refine ⟨hdeclared, fun h => absurd h hprojection, ?_⟩
  rintro m c ps tag rfl d hd hname hlength
  exact hlength (harity d hd hname)

/-- **Inference of a program with a derivation** makes it through the tree. -/
theorem RenamesProgram.inferTypes_ok {n named : Node} {u : SimpleType}
    (h : RenamesProgram tags n named) (hnames : (named.declarations.map Declaration.name).Nodup)
    (hprojection : named.NoProjection) (htype : HasType named.declarations [] named u) :
    ∃ typing, named.inferTypes = .ok typing := by
  cases hrun : named.inferTypes with
  | ok typing => exact ⟨typing, rfl⟩
  | error e =>
    have harity : named.Everywhere (HasArity named.declarations) := by
      cases h with
      | mk he =>
        have hbody := he.hasArity hnames (hasType_top.1 htype)
        exact .mk trivial (List.forall_mem_singleton.2 hbody)
    have hallows : named.Everywhere (Allows named.declarations fun _ => False) :=
      (((everywhere_declaredHere named fun _ hd => hd).and harity).and hprojection).imp
        fun _ hm => allows_nothing hm.1.1 hm.1.2 hm.2
    exact (h.inferTypes_allowed hallows hrun).elim

end Arity

/-! ## 2. Principal types -/

/-- The number of type variables that inference of a program asks for. -/
def Node.variableCount (n : Node) : Nat :=
  match n.infer generalize .empty |>.run .empty with
  | .ok _ s => s.nextVariable
  | .error _ s => s.nextVariable

/-- The run behind the types of a program, which has asked for that many variables. -/
theorem Node.infers_of_inferTypes {n : Node} {typing : Typing} (h : n.inferTypes = .ok typing) :
    ∃ s', Infers generalize .empty n .empty typing.tree typing.type s' ∧
      typing.constraints = s'.constraints.toList ∧ n.variableCount = s'.nextVariable := by
  unfold inferTypes inferTypesBy at h
  unfold variableCount
  split at h
  · next tree type s hrun =>
    cases h
    exact ⟨s, Infers.of_run hrun, rfl, by rw [hrun]⟩
  · cases h

/-- The substitution by which the variables of a type stand for what a valuation gives them. -/
theorem Ty.subst_lift (θ : TypeVar → SimpleType) (t : Ty) :
    t.lift.subst (fun n => θ (.ofNat n)) = t.interpret θ := by
  rw [lift, subst_interpret]
  refine interpret_congr t fun v _ => ?_
  rw [SimpleType.subst, TypeVar.ofNat_toNat]

section Runs

variable {named : Node} {typing : Typing} {Δ : List Declaration} {s' : InferState}

/-- Types that the equations allow are those of derivations. -/
theorem Infers.hasType_iff {t : Ty} {n' : Node} {u : SimpleType}
    (h : Infers generalize .empty named .empty n' t s') (hprojection : named.NoProjection)
    (hs' : s'.Bounded Δ) (hplain : named.plain = named.bare) :
    HasType Δ [] named u ↔ ∃ θ, Solves θ s'.constraints.toList ∧ t.interpret θ = u := by
  constructor
  · intro htype
    obtain ⟨θ, hθ, hu⟩ := (h.complete hprojection hs' .empty).realises .nil htype
      (solves_nil fun v => .var v.toNat)
    exact ⟨θ, hθ.solves, hu⟩
  · rintro ⟨θ, hθ, rfl⟩
    have htype := (h.apart hprojection hs' .empty).sound InferState.sound_empty hs'.declared .nil hθ
    exact htype.of_plain h.plain_eq hplain

end Runs

/-- **Inference is complete and finds principal types.** On a program with its names resolved,
    without projections, and with fewer than `2 ^ 32` type variables, inference and unification
    succeed exactly when the program has a typing derivation. The types of the program are then
    those that the type in its root becomes when its variables are replaced. -/
theorem IsProgram.inferTypes_principal {n named : Node} (hn : IsProgram n)
    (hresolve : n.resolveNames = .ok named) (hprojection : named.NoProjection)
    (hcount : named.variableCount < 2 ^ 32) :
    ((∃ typing tree, named.inferTypes = .ok typing ∧ typing.unify = .ok tree) ↔
        ∃ u, HasType named.declarations [] named u) ∧
      ∀ typing tree, named.inferTypes = .ok typing → typing.unify = .ok tree →
        ∃ t, tree.mark.ty = some t ∧
          ∀ u, HasType named.declarations [] named u ↔ ∃ ρ, u = t.lift.subst ρ := by
  obtain ⟨tags, htags, -, hrenames, hnames⟩ := hn.resolveNames_ok hresolve
  have hnodup : (named.declarations.map Declaration.name).Nodup := hnames ▸ htags
  have htypes : ∀ {typing : Typing}, named.inferTypes = .ok typing → ∀ u,
      HasType named.declarations [] named u ↔
        ∃ θ, Solves θ typing.constraints ∧ typing.type.interpret θ = u := by
    intro typing htyping u
    obtain ⟨s', hinfers, hconstraints, hvariables⟩ := named.infers_of_inferTypes htyping
    rw [hconstraints]
    exact hinfers.hasType_iff hprojection
      ⟨hvariables ▸ Nat.le_of_lt hcount, hinfers.declared, hnodup⟩ hrenames.plain_eq
  have hroot : ∀ {typing : Typing} {tree : Node}, named.inferTypes = .ok typing →
      typing.unify = .ok tree → ∃ t, tree.mark.ty = some t ∧
        ∀ u, HasType named.declarations [] named u ↔ ∃ ρ, u = t.lift.subst ρ := by
    intro typing tree htyping hunify
    obtain ⟨s', hinfers, -, -⟩ := named.infers_of_inferTypes htyping
    obtain ⟨σ, hsolve, rfl⟩ := Typing.unify_ok_iff.1 hunify
    refine ⟨σ.apply typing.type, mark_applyTypes hinfers.mark_ty,
      fun u => (htypes htyping u).trans ?_⟩
    constructor
    · rintro ⟨θ, hθ, rfl⟩
      refine ⟨fun n => θ (.ofNat n), ?_⟩
      rw [Ty.subst_lift, (((solve_ok hsolve).2 θ).2 hθ).interpret_apply]
    · rintro ⟨ρ, rfl⟩
      refine ⟨_, solves_of_solve hsolve fun v => ρ v.toNat, ?_⟩
      rw [← Ty.interpret_substitute, Ty.lift, Ty.subst_interpret]
      rfl
  refine ⟨⟨?_, ?_⟩, fun typing tree => hroot⟩
  · rintro ⟨typing, tree, htyping, hunify⟩
    obtain ⟨t, -, ht⟩ := hroot htyping hunify
    exact ⟨_, (ht _).2 ⟨.var, rfl⟩⟩
  · rintro ⟨u, hu⟩
    obtain ⟨typing, htyping⟩ := hrenames.inferTypes_ok hnodup hprojection hu
    obtain ⟨θ, hθ, -⟩ := (htypes htyping u).1 hu
    obtain ⟨σ, hsolve⟩ := solve_of_solves hθ
    exact ⟨typing, typing.tree.applyTypes σ, htyping, Typing.unify_ok_iff.2 ⟨σ, hsolve, rfl⟩⟩

/-- A name is used at the type of a parameter and at another one: the principal type has a
    variable. -/
def pairedTwice : Source :=
  .ofText "let pair = \\x -> (x, x) in \\y -> (pair y, pair true)"

set_option maxRecDepth 100000 in
theorem inferTypes_principal_pairedTwice : ∃ parsed named, pairedTwice.parse = .ok parsed ∧
    parsed.resolveNames = .ok named ∧ named.NoProjection ∧ named.variableCount < 2 ^ 32 ∧
      ∀ u, HasType named.declarations [] named u ↔
        ∃ p, u = .function p (.tuple [.tuple [p, p], .tuple [.bool, .bool]]) := by
  have h : (do
      let named ← (← pairedTwice.parse).resolveNames
      let tree ← (← named.inferTypes).unify
      return (tree.mark.ty, decide named.NoProjection, named.variableCount)) =
      .ok (some (.function (.var (.ofNat 1)) (.tuple [.tuple [.var (.ofNat 1), .var (.ofNat 1)],
        .tuple [.bool, .bool]])), true, 6) := by cbv
  obtain ⟨parsed, hparsed, h⟩ := bind_ok_iff.1 h
  obtain ⟨named, hnamed, h⟩ := bind_ok_iff.1 h
  obtain ⟨typing, htyping, h⟩ := bind_ok_iff.1 h
  obtain ⟨tree, htree, h⟩ := bind_ok_iff.1 h
  simp only [pure, Except.pure, Except.ok.injEq, Prod.mk.injEq, decide_eq_true_eq] at h
  obtain ⟨hroot, hprojection, hcount⟩ := h
  have hlt : named.variableCount < 2 ^ 32 := by rw [hcount]; decide
  refine ⟨parsed, named, hparsed, hnamed, hprojection, hlt, fun u => ?_⟩
  obtain ⟨-, hprincipal⟩ :=
    (pairedTwice.isProgram_of_parse hparsed).inferTypes_principal hnamed hprojection hlt
  obtain ⟨t, ht, htypes⟩ := hprincipal typing tree htyping htree
  obtain rfl := Option.some.inj (ht.symm.trans hroot)
  refine (htypes u).trans (Iff.intro ?_ ?_)
  · rintro ⟨ρ, hρ⟩
    exact ⟨ρ 1, hρ⟩
  · rintro ⟨p, hp⟩
    exact ⟨fun _ => p, hp⟩

end ClosureML
