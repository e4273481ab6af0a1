import ClosureML.Proofs.Types.VariableOrder
import Mathlib.Data.List.Forall2
import Mathlib.Data.List.Nodup

/-!
# Inference is complete

A derivation of a tree gives a solution of the equations that inference collects for it: the
variables that were there before keep what they stand for, the new ones are chosen so that the type
of the root stands for the type of the derivation. Schemas admit every instance that the schemes of
the derivation have.

* `Types.Admits`: every instance of a context's scheme is one of the binding's;
* `Types.Realises`: the solution behind a step, with what was there before left alone.

Main statement: `Infers.complete`.
-/

namespace ClosureML

open ClosureML.Types

/-! ## 1. Environments that admit a context -/

/-- A solution stays one when the variables of what it gives are replaced. -/
theorem Solves.subst {θ : TypeVar → SimpleType} {cs : List Constraint} (h : Solves θ cs)
    (ρ : Nat → SimpleType) : Solves (fun v => (θ v).subst ρ) cs := by
  intro c hc
  rw [Constraint.Holds, ← Ty.subst_interpret, ← Ty.subst_interpret, h c hc]

theorem Context.Holds.append {Γ : Context} {n : Nat} (h : Γ.Holds n) (Γ' : Context) :
    Context.Holds (Γ' ++ Γ) n := by
  obtain ⟨entry, hentry, hn⟩ := h
  exact ⟨entry, List.mem_append_right _ hentry, hn⟩

namespace Ty

variable {θ : TypeVar → SimpleType} {v : TypeVar} {n : Nat}

mutual

/-- What a type stands for has the variables of what its own variables stand for. -/
theorem mem_vars_of_occurs :
    ∀ t : Ty, v ∈ t.occurrences → n ∈ (θ v).vars → n ∈ (t.interpret θ).vars
  | base _, h, _ => nomatch h
  | data _, h, _ => nomatch h
  | function p r, h, hn => by
    rw [interpret, SimpleType.vars, List.mem_append]
    exact (List.mem_append.1 h).imp (fun h => mem_vars_of_occurs p h hn) fun h =>
      mem_vars_of_occurs r h hn
  | tuple ts, h, hn => mem_varsAll_of_occurs ts h hn
  | var w, h, hn => List.mem_singleton.1 h ▸ hn

theorem mem_varsAll_of_occurs : ∀ ts : List Ty, v ∈ occurrencesAll ts → n ∈ (θ v).vars →
    n ∈ SimpleType.varsAll (interpretAll θ ts)
  | [], h, _ => nomatch h
  | t :: ts, h, hn => by
    rw [interpretAll, SimpleType.varsAll, List.mem_append]
    exact (List.mem_append.1 h).imp (fun h => mem_vars_of_occurs t h hn) fun h =>
      mem_varsAll_of_occurs ts h hn

end

end Ty

namespace Types

variable {θ θ' : TypeVar → SimpleType}

/-- Every instance of the scheme is one of the binding. -/
def BindingAdmits (θ : TypeVar → SimpleType) : Binding → Scheme → Prop
  | .mono t, σ => ∀ u, σ.Instance u → t.interpret θ = u
  | .poly schema, σ => ∀ u, σ.Instance u → ∃ θ', (∀ v, v ∉ schema.quantified → θ' v = θ v) ∧
      Solves θ' schema.constraints ∧ schema.type.interpret θ' = u

/-- The binding admits the scheme, and what its free variables stand for is held by the scheme or by
    the context behind it. -/
structure EntryAdmits (θ : TypeVar → SimpleType) (Γ : Context) (b : Binding) (σ : Scheme) :
    Prop where
  instances : BindingAdmits θ b σ
  held : ∀ v ∈ b.freeVariables, ∀ n ∈ (θ v).vars, (n ∈ σ.type.vars ∧ n ∉ σ.quantified) ∨ Γ.Holds n

/-- The environment gives the same names as the context, with bindings that admit its schemes. -/
inductive Admits (θ : TypeVar → SimpleType) : List (String × Binding) → Context → Prop where
  | nil : Admits θ [] []
  | cons {x : String} {b : Binding} {σ : Scheme} {bindings : List (String × Binding)} {Γ : Context}
      (hb : EntryAdmits θ Γ b σ) (h : Admits θ bindings Γ) :
      Admits θ ((x, b) :: bindings) ((x, σ) :: Γ)

open Classical in
/-- What a binding admits depends on what its free variables stand for only. -/
theorem BindingAdmits.congr {b : Binding} {σ : Scheme} (h : BindingAdmits θ b σ)
    (heq : ∀ v ∈ b.freeVariables, θ' v = θ v) : BindingAdmits θ' b σ := by
  cases b with
  | mono t =>
    intro u hu
    rw [← h u hu]
    exact Ty.interpret_congr t fun v hv => heq v (Ty.mem_freeVariables.2 hv)
  | poly schema =>
    intro u hu
    obtain ⟨ξ, hξ, hsolves, hinterpret⟩ := h u hu
    -- quantified variables keep what they stood for, the others follow the new valuation
    let ξ' (v : TypeVar) : SimpleType := if v ∈ schema.quantified then ξ v else θ' v
    have hsame : ∀ v, v ∈ schema.type.occurrences ∨
        v ∈ schema.constraints.flatMap Constraint.occurrences → ξ v = ξ' v := by
      intro v hv
      by_cases hq : v ∈ schema.quantified
      · exact (if_pos hq).symm
      · rw [show ξ' v = θ' v from if_neg hq, heq v (mem_freeVariables_schema.2 ⟨hv, hq⟩), hξ v hq]
    refine ⟨ξ', fun v hv => if_neg hv, hsolves.congr fun v hv => hsame v (.inr hv), ?_⟩
    rw [← hinterpret]
    exact (Ty.interpret_congr _ fun v hv => hsame v (.inl hv)).symm

theorem EntryAdmits.weaken {Γ Γ' : Context} {b : Binding} {σ : Scheme} (h : EntryAdmits θ Γ b σ)
    (hΓ : ∀ n, Γ.Holds n → Γ'.Holds n) : EntryAdmits θ Γ' b σ :=
  ⟨h.instances, fun v hv n hn => (h.held v hv n hn).imp_right (hΓ n)⟩

namespace Admits

variable {bindings : List (String × Binding)} {Γ : Context}

theorem congr (h : Admits θ bindings Γ)
    (heq : ∀ entry ∈ bindings, ∀ v ∈ entry.2.freeVariables, θ' v = θ v) : Admits θ' bindings Γ := by
  induction h with
  | nil => exact .nil
  | cons hb _ ih =>
    have hfirst := heq _ List.mem_cons_self
    refine .cons ⟨hb.instances.congr hfirst, fun v hv => ?_⟩ <|
      ih fun entry hentry => heq entry (List.mem_cons_of_mem _ hentry)
    rw [hfirst v hv]
    exact hb.held v hv

/-- What the free variables of an environment stand for, the context holds. -/
theorem holds (h : Admits θ bindings Γ) : ∀ entry ∈ bindings, ∀ v ∈ entry.2.freeVariables,
    ∀ n ∈ (θ v).vars, Γ.Holds n := by
  induction h with
  | nil => exact List.forall_mem_nil _
  | @cons x b σ bindings Γ hb _ ih =>
    intro entry hentry v hv n hn
    rcases List.mem_cons.1 hentry with rfl | hentry
    · rcases hb.held v hv n hn with hheld | hheld
      · exact ⟨(x, σ), List.mem_cons_self, hheld⟩
      · exact hheld.append [(x, σ)]
    · exact (ih entry hentry v hv n hn).append [(x, σ)]

theorem lookup {x : String} {b : Binding} {σ : Scheme} (h : Admits θ bindings Γ)
    (hb : lookup? ⟨bindings⟩ x = some b) (hσ : Γ.lookup x = some σ) : BindingAdmits θ b σ := by
  induction h with
  | nil => nomatch hb
  | @cons y b' σ' _ _ hentry _ ih =>
    rw [lookup?, Scope.findSome?, List.findSome?_cons] at hb
    rw [List.lookup_cons] at hσ
    by_cases hy : y = x
    · subst hy
      simp only [if_true, Option.some.injEq] at hb
      simp only [BEq.rfl, Option.some.injEq] at hσ
      exact hb ▸ hσ ▸ hentry.instances
    · simp only [hy, if_false] at hb
      rw [beq_false_of_ne (Ne.symm hy)] at hσ
      exact ih hb hσ

/-- More names, the last of them innermost. -/
theorem extendAll {Γ : TypeEnvironment} {Γ' : Context} (h : Admits θ Γ.toList Γ')
    {bindings : List (String × Binding)} {schemes : Context}
    (hall : List.Forall₂ (fun b σ => b.1 = σ.1 ∧ EntryAdmits θ Γ' b.2 σ.2) bindings schemes) :
    Admits θ (Γ.extendAll bindings).toList (schemes.reverse ++ Γ') := by
  rw [Scope.toList_extendAll]
  have hreverse := List.rel_reverse hall
  generalize bindings.reverse = bs at hreverse
  generalize schemes.reverse = σs at hreverse
  induction hreverse with
  | nil => exact h
  | @cons b σ bs σs hentry _ ih =>
    obtain ⟨hname, hadmits⟩ := hentry
    rw [List.cons_append, List.cons_append, show b = (σ.1, b.2) from Prod.ext hname rfl]
    exact .cons (hadmits.weaken fun n hn => hn.append σs) ih

end Admits

/-- A name with one type. -/
theorem entryAdmits_mono (Γ : Context) (t : Ty) :
    EntryAdmits θ Γ (.mono t) (.mono (t.interpret θ)) := by
  refine ⟨fun u hu => (Scheme.mono_instance.1 hu).symm,
    fun v hv n hn => .inl ⟨?_, List.not_mem_nil⟩⟩
  exact Ty.mem_vars_of_occurs t (Ty.mem_freeVariables.1 hv) hn

/-- **A generalised name admits the scheme** of a derivation: what replaces the scheme's quantified
    variables replaces them in what the schema's quantified variables stand for. -/
theorem entryAdmits_generalize {Γ : TypeEnvironment} {Γ' : Context}
    {earlier since : List Constraint} {t : Ty} {quantified : List Nat} (hΓ : Admits θ Γ.toList Γ')
    (hθ : Solves θ (earlier ++ since)) (hfree : ∀ n ∈ quantified, ¬ Γ'.Holds n) :
    EntryAdmits θ Γ' (generalize Γ earlier since t) ⟨quantified, t.interpret θ⟩ := by
  have hheld : ∀ v ∈ environmentVariables Γ, ∀ n ∈ (θ v).vars, Γ'.Holds n := by
    intro v hv
    obtain ⟨entry, hentry, hv⟩ := mem_environmentVariables.1 hv
    exact hΓ.holds entry hentry v hv
  refine ⟨?_, fun v hv n hn => .inr (hheld v (mem_of_mem_generalizeOver hv) n hn)⟩
  have hreplaced : ∀ ρ : Nat → SimpleType, (∀ n, n ∉ quantified → ρ n = .var n) →
      ∀ v ∈ environmentVariables Γ, (θ v).subst ρ = θ v := by
    intro ρ hρ v hv
    have hsame : (θ v).subst ρ = (θ v).subst .var :=
      SimpleType.subst_congr _ fun n hn => hρ n fun hq => hfree n hq (hheld v hv n hn)
    rw [hsame, SimpleType.subst_var]
  let quantifiedHere := (VarSet.ofList (t.occurrences ++ since.flatMap Constraint.occurrences)).diff
    (environmentVariables Γ)
  have hfixed : ∀ v ∈ t.occurrences ++ since.flatMap Constraint.occurrences, v ∉ quantifiedHere →
      v ∈ environmentVariables Γ := fun v hv hq =>
    Decidable.byContradiction fun h => hq (VarSet.mem_diff.2 ⟨VarSet.mem_ofList.2 hv, h⟩)
  rw [show generalize Γ earlier since t = generalizeOver (environmentVariables Γ) t since from rfl]
  simp only [generalizeOver]
  split
  · next hempty =>
    rintro u ⟨ρ, hρ, rfl⟩
    rw [Ty.subst_interpret]
    refine Ty.interpret_congr t fun v hv => (hreplaced ρ hρ v (hfixed v ?_ ?_)).symm
    · exact List.mem_append_left _ hv
    · rw [show quantifiedHere = [] from List.isEmpty_iff.1 hempty]
      exact List.not_mem_nil
  · rintro u ⟨ρ, hρ, rfl⟩
    let ξ (v : TypeVar) : SimpleType := if v ∈ quantifiedHere then (θ v).subst ρ else θ v
    have hξ : ∀ v ∈ t.occurrences ++ since.flatMap Constraint.occurrences, (θ v).subst ρ = ξ v := by
      intro v hv
      by_cases hq : v ∈ quantifiedHere
      · exact (if_pos hq).symm
      · rw [show ξ v = θ v from if_neg hq, hreplaced ρ hρ v (hfixed v hv hq)]
    have hsolves : Solves ξ since := ((solves_append.1 hθ).2.subst ρ).congr fun v hv =>
      hξ v (List.mem_append_right _ hv)
    refine ⟨ξ, fun v hv => if_neg hv, fun c hc => hsolves c (List.mem_filter.1 hc).1, ?_⟩
    rw [Ty.subst_interpret]
    exact (Ty.interpret_congr t fun v hv => hξ v (List.mem_append_left _ hv)).symm

/-! ## 2. Solutions behind a step -/

/-- Behind a step there is a solution that leaves alone what was there before. -/
structure Realises (s s' : InferState) (θ θ' : TypeVar → SimpleType) : Prop where
  next : s.nextVariable ≤ s'.nextVariable
  agrees : ∀ v, v.toNat < s.nextVariable → θ' v = θ v
  solves : Solves θ' s'.constraints.toList

namespace Realises

variable {s s₁ s' : InferState} {θ₁ : TypeVar → SimpleType}

theorem refl (hθ : Solves θ s.constraints.toList) : Realises s s θ θ :=
  ⟨Nat.le_refl _, fun _ _ => rfl, hθ⟩

theorem trans (h : Realises s s₁ θ θ₁) (h' : Realises s₁ s' θ₁ θ') : Realises s s' θ θ' :=
  ⟨Nat.le_trans h.next h'.next,
    fun v hv => (h'.agrees v (Nat.lt_of_lt_of_le hv h.next)).trans (h.agrees v hv), h'.solves⟩

/-- What was mentioned before stands for what it stood for. -/
theorem interpret (h : Realises s s' θ θ') {t : Ty} (ht : Earlier s t.occurrences) :
    t.interpret θ' = t.interpret θ :=
  Ty.interpret_congr t fun v hv => h.agrees v (ht v hv)

theorem admits (h : Realises s s' θ θ') {Γ : TypeEnvironment} {Γ' : Context} (hs : InOrder Γ s)
    (hΓ : Admits θ Γ.toList Γ') : Admits θ' Γ.toList Γ' :=
  hΓ.congr fun entry hentry v hv =>
    h.agrees v (hs.environment v (mem_environmentVariables.2 ⟨entry, hentry, hv⟩))

end Realises

section Steps

variable {s s' : InferState} {Γ : TypeEnvironment}

/-- A new variable can stand for any type. -/
theorem realises_fresh {t : Ty} (h : Runs fresh s t s') (hbound : s'.nextVariable ≤ 2 ^ 32)
    (hs : InOrder Γ s) (hθ : Solves θ s.constraints.toList) (u : SimpleType) :
    ∃ θ', Realises s s' θ θ' ∧ t.interpret θ' = u := by
  obtain ⟨rfl, rfl⟩ := runs_fresh.1 h
  have hn : (TypeVar.ofNat s.nextVariable).toNat = s.nextVariable :=
    TypeVar.toNat_ofNat (Nat.lt_of_lt_of_le (Nat.lt_succ_self _) hbound)
  let θ' (v : TypeVar) : SimpleType := if v = .ofNat s.nextVariable then u else θ v
  have hagrees : ∀ v, v.toNat < s.nextVariable → θ' v = θ v := fun v hv =>
    if_neg fun heq => by rw [heq, hn] at hv; exact Nat.lt_irrefl _ hv
  have hsolves := hθ.congr fun v hv => (hagrees v (hs.constraints v hv)).symm
  exact ⟨θ', ⟨Nat.le_succ _, hagrees, hsolves⟩, if_pos rfl⟩

theorem realises_ascribedOrFresh {ascription : Option TypeExpr} {t : Ty}
    (h : Runs (ascribedOrFresh ascription) s t s') (hbound : s'.nextVariable ≤ 2 ^ 32)
    (hs : InOrder Γ s) (hθ : Solves θ s.constraints.toList) {u : SimpleType}
    (hu : Ascribed ascription u) : ∃ θ', Realises s s' θ θ' ∧ t.interpret θ' = u := by
  cases ascription with
  | none => exact realises_fresh h hbound hs hθ u
  | some a =>
    obtain ⟨rfl, rfl⟩ := runs_pure.1 h
    exact ⟨θ, .refl hθ, (a.interpret_toTy θ).trans (hu a rfl).symm⟩

/-- An equation between types that stand for the same changes nothing. -/
theorem realises_constrain {t u : Ty} {position : Position}
    (h : Runs (constrain t u position) s () s') (hθ : Solves θ s.constraints.toList)
    (heq : t.interpret θ = u.interpret θ) : Realises s s' θ θ := by
  rcases runs_constrain h with ⟨-, rfl⟩ | rfl
  · exact .refl hθ
  · refine ⟨Nat.le_refl _, fun _ _ => rfl, ?_⟩
    rw [Array.toList_push]
    exact solves_append.2 ⟨hθ, fun c hc => List.mem_singleton.1 hc ▸ heq⟩

theorem realises_agrees {t : Ty} {position : Position} {ascription : Option TypeExpr}
    (h : Agrees t position ascription s s') (hθ : Solves θ s.constraints.toList)
    (hu : Ascribed ascription (t.interpret θ)) : Realises s s' θ θ := by
  cases ascription with
  | none => exact h ▸ .refl hθ
  | some a => exact realises_constrain h hθ ((hu a rfl).trans (a.interpret_toTy θ).symm)

/-- New variables can stand for what the variables that they replace stand for under any other
    valuation. -/
theorem realises_freshCopies (ξ : TypeVar → SimpleType) : ∀ {vs : VarSet}
    {copies : List (TypeVar × Ty)} {s s' : InferState} {θ : TypeVar → SimpleType},
    Runs (freshCopies vs) s copies s' → s'.nextVariable ≤ 2 ^ 32 → InOrder Γ s →
      Solves θ s.constraints.toList →
      ∃ θ', Realises s s' θ θ' ∧ ∀ v ∈ vs, Ty.after θ' (Substitution.findIn · copies) v = ξ v
  | [], _, _, _, θ, h, _, _, hθ => by
    obtain ⟨-, rfl⟩ := runs_pure.1 h
    exact ⟨θ, .refl hθ, fun _ h => nomatch h⟩
  | w :: vs, _, _, _, _, h, hbound, hs, hθ => by
    simp only [freshCopies, runs_bind, runs_pure] at h
    obtain ⟨t, s₁, ht, more, s₂, hmore, rfl, rfl⟩ := h
    have hbound₁ := Nat.le_trans (follows_freshCopies hmore).1.next hbound
    have h₁ := hs.fresh ht hbound₁
    obtain ⟨θ₁, hθ₁, hfirst⟩ := realises_fresh ht hbound₁ hs hθ (ξ w)
    obtain ⟨θ₂, hθ₂, hrest⟩ := realises_freshCopies ξ hmore hbound h₁.inOrder hθ₁.solves
    refine ⟨θ₂, hθ₁.trans hθ₂, fun v hv => ?_⟩
    by_cases hw : v = w
    · rw [Ty.after, Substitution.findIn, if_pos hw, Option.getD_some, hθ₂.interpret h₁.earlier,
        hfirst, hw]
    · rw [Ty.after, Substitution.findIn, if_neg hw]
      exact hrest v ((List.mem_cons.1 hv).resolve_left hw)

/-- **A copy of a schema can stand for every instance** that the schema admits. -/
theorem realises_instantiate {schema : Schema} {t : Ty} (h : Runs (instantiate schema) s t s')
    (hbound : s'.nextVariable ≤ 2 ^ 32) (hs : InOrder Γ s) (hθ : Solves θ s.constraints.toList)
    (hfree : Earlier s schema.freeVariables) {σ : Scheme} (hσ : BindingAdmits θ (.poly schema) σ)
    {u : SimpleType} (hu : σ.Instance u) : ∃ θ', Realises s s' θ θ' ∧ t.interpret θ' = u := by
  obtain ⟨ξ, hξ, hsolves, rfl⟩ := hσ u hu
  obtain ⟨copies, s₁, hcopies, rfl, rfl⟩ := runs_instantiate h
  obtain ⟨θ', hθ', hafter⟩ := realises_freshCopies ξ hcopies hbound hs hθ
  have hused : ∀ v, v ∈ schema.type.occurrences ∨
      v ∈ schema.constraints.flatMap Constraint.occurrences →
      ξ v = Ty.after θ' (Substitution.findIn · copies) v := by
    intro v hv
    by_cases hq : v ∈ schema.quantified
    · exact (hafter v hq).symm
    · rw [hξ v hq, Ty.after, findIn_freshCopies hcopies v hq]
      exact (hθ'.agrees v (hfree v (mem_freeVariables_schema.2 ⟨hv, hq⟩))).symm
  refine ⟨θ', ⟨hθ'.next, hθ'.agrees, ?_⟩, ?_⟩
  · rw [Array.toList_appendList]
    exact solves_append.2 ⟨hθ'.solves, solves_map_substitute.2 (hsolves.congr fun v hv =>
      hused v (.inr hv))⟩
  · rw [Ty.interpret_substitute]
    exact (Ty.interpret_congr _ fun v hv => hused v (.inl hv)).symm

end Steps

/-- The types of bindings that were mentioned before stand for what they stood for. -/
theorem Realises.typesUnder {s s' : InferState} (h : Realises s s' θ θ')
    {types : List (String × Ty)}
    (htypes : ∀ entry ∈ monoBindings types, Earlier s entry.2.freeVariables) :
    typesUnder θ' types = typesUnder θ types :=
  List.map_congr_left fun entry hentry => congrArg (Prod.mk entry.1) <| h.interpret fun v hv =>
    htypes _ (List.mem_map_of_mem hentry) v (Ty.mem_freeVariables.2 hv)

/-- The types that a group declares for a function stand for those of a derivation. -/
structure Stands (θ : TypeVar → SimpleType) (d : String × Ty × Ty) (e : GroupEntry) : Prop where
  name : d.1 = e.name
  parameter : d.2.1.interpret θ = e.parameter
  result : d.2.2.interpret θ = e.result

theorem Stands.type {d : String × Ty × Ty} {e : GroupEntry} (h : Stands θ d e) :
    (Ty.function d.2.1 d.2.2).interpret θ = e.type := by
  rw [Ty.interpret, h.parameter, h.result]
  rfl

theorem Realises.stands {s s' : InferState} (h : Realises s s' θ θ')
    {declared : List (String × Ty × Ty)}
    {group : List GroupEntry} (hstands : List.Forall₂ (Stands θ) declared group)
    (hearlier : ∀ type ∈ declared.map Prod.snd, Earlier s (Ty.function type.1 type.2).occurrences) :
    List.Forall₂ (Stands θ') declared group := by
  induction hstands with
  | nil => exact .nil
  | cons hfirst _ ih =>
    have hb := hearlier _ List.mem_cons_self
    refine .cons ⟨hfirst.name, ?_, ?_⟩ <| ih fun type htype =>
      hearlier type (List.mem_cons_of_mem _ htype)
    · rw [h.interpret fun v hv => hb v (List.mem_append_left _ hv)]
      exact hfirst.parameter
    · rw [h.interpret fun v hv => hb v (List.mem_append_right _ hv)]
      exact hfirst.result

variable {Δ : List Declaration}

theorem realises_declareGroup : ∀ {arms : List Node} {declared : List (String × Ty × Ty)}
    {s s' : InferState} {Γ : TypeEnvironment} {Γ' : Context} {group : List GroupEntry}
    {θ : TypeVar → SimpleType}, Runs (declareGroup arms) s declared s' →
      s'.nextVariable ≤ 2 ^ 32 → InOrder Γ s → GroupHasTypes Δ Γ' arms group →
      Solves θ s.constraints.toList →
      ∃ θ', Realises s s' θ θ' ∧ List.Forall₂ (Stands θ') declared group
  | [], _, _, _, _, _, _, θ, h, _, _, htype, hθ => by
    obtain ⟨rfl, rfl⟩ := runs_pure.1 h
    obtain rfl := groupHasTypes_nil.1 htype
    exact ⟨θ, .refl hθ, .nil⟩
  | .letRecArm .. :: rest, _, _, _, _, _, _, _, h, hbound, hs, htype, hθ => by
    simp only [declareGroup, runs_bind, runs_pure] at h
    obtain ⟨p, s₁, hp, r, s₂, hr, more, s₃, hmore, rfl, rfl⟩ := h
    obtain ⟨e, es, rfl, rfl, hpa, hra, -, hrest⟩ := groupHasTypes_cons.1 htype
    have hbound₂ := Nat.le_trans (follows_declareGroup hmore).next hbound
    have hbound₁ := Nat.le_trans (follows_ascribedOrFresh hr).next hbound₂
    have h₁ := hs.ascribedOrFresh hp hbound₁
    have h₂ := h₁.inOrder.ascribedOrFresh hr hbound₂
    obtain ⟨θ₁, hθ₁, hparameter⟩ := realises_ascribedOrFresh hp hbound₁ hs hθ hpa
    obtain ⟨θ₂, hθ₂, hresult⟩ := realises_ascribedOrFresh hr hbound₂ h₁.inOrder hθ₁.solves hra
    obtain ⟨θ₃, hθ₃, hstands⟩ := realises_declareGroup hmore hbound h₂.inOrder hrest hθ₂.solves
    refine ⟨θ₃, hθ₁.trans (hθ₂.trans hθ₃), .cons ⟨rfl, ?_, ?_⟩ hstands⟩
    · rw [(hθ₂.trans hθ₃).interpret h₁.earlier, hparameter]
    · rw [hθ₃.interpret h₂.earlier, hresult]

/-- The functions of a group, as its own bodies see them. -/
theorem Admits.group {Γ : TypeEnvironment} {Γ' : Context} (hΓ : Admits θ Γ.toList Γ')
    {declared : List (String × Ty × Ty)} {group : List GroupEntry}
    (h : List.Forall₂ (Stands θ) declared group) :
    Admits θ (Γ.extendAll (declared.map fun (f, p, r) => (f, .mono (.function p r)))).toList
      (Context.ofGroup group ++ Γ') := by
  refine hΓ.extendAll (List.forall₂_map_left_iff.2 (List.forall₂_map_right_iff.2 ?_))
  exact h.imp fun d e hd => ⟨hd.name, by rw [← hd.type]; exact entryAdmits_mono _ _⟩

/-- The functions of a group, as the body behind it sees them. -/
theorem Admits.behindGroup {Γ : TypeEnvironment} {Γ' : Context} (hΓ : Admits θ Γ.toList Γ')
    {declared : List (String × Ty × Ty)} {group : List GroupEntry}
    (h : List.Forall₂ (Stands θ) declared group) {earlier since : List Constraint}
    (hθ : Solves θ (earlier ++ since))
    (hfree : ∀ e ∈ group, ∀ n ∈ e.quantified, ¬ Γ'.Holds n) :
    Admits θ (Γ.extendAll (declared.map fun (f, p, r) =>
      (f, generalize Γ earlier since (.function p r)))).toList
      (Context.behindGroup group ++ Γ') := by
  refine hΓ.extendAll (List.forall₂_map_left_iff.2 (List.forall₂_map_right_iff.2 ?_))
  induction h with
  | nil => exact .nil
  | @cons d e _ _ hd _ ih =>
    refine .cons ⟨hd.name, ?_⟩ (ih fun e he => hfree e (List.mem_cons_of_mem _ he))
    rw [← hd.type]
    exact entryAdmits_generalize hΓ hθ (hfree e List.mem_cons_self)

/-- The constructors of a data type. -/
theorem Admits.declared {Γ : TypeEnvironment} {Γ' : Context} (hΓ : Admits θ Γ.toList Γ')
    {d : String} {cs : List Node} :
    Admits θ (Γ.extendAll ((Node.declared d cs).map fun c =>
        (c.name, .mono (constructorType (c.parameters.map TypeExpr.toTy) (.data d))))).toList
      (Context.ofTypes ((Node.declared d cs).map Declaration.binding) ++ Γ') := by
  rw [Context.ofTypes, List.map_map]
  refine hΓ.extendAll (List.forall₂_map_left_iff.2 (List.forall₂_map_right_iff.2
    (List.forall₂_same.2 fun c hc => ⟨rfl, ?_⟩)))
  have htype : c.type =
      (constructorType (c.parameters.map TypeExpr.toTy) (.data d)).interpret θ := by
    rw [interpret_constructorType, ← dataType_of_mem_declared hc]
    rfl
  show EntryAdmits θ Γ' _ (.mono c.type)
  rw [htype]
  exact entryAdmits_mono _ _

/-- The names that a pattern binds. -/
theorem Admits.pattern {Γ : TypeEnvironment} {Γ' : Context} (hΓ : Admits θ Γ.toList Γ')
    (types : List (String × Ty)) :
    Admits θ (Γ.extendAll (monoBindings types)).toList
      (Context.ofTypes (typesUnder θ types) ++ Γ') := by
  rw [Context.ofTypes, typesUnder, List.map_map]
  exact hΓ.extendAll (List.forall₂_map_left_iff.2 (List.forall₂_map_right_iff.2
    (List.forall₂_same.2 fun entry _ => ⟨rfl, entryAdmits_mono _ _⟩)))

end Types

/-! ## 3. Patterns -/

variable {Δ : List Declaration}

mutual

/-- **A derivation of a pattern is realised** by a run on it. -/
theorem InfersPattern.complete {n n' : Node} {t : Ty} {bindings : List (String × Binding)}
    {s s' : InferState} {Γ : TypeEnvironment} : InfersPattern n s n' t bindings s' → s'.Bounded Δ →
      InOrder Γ s →
      ∀ {θ : TypeVar → SimpleType} {u : SimpleType} {names : List (String × SimpleType)},
        PatternHasType Δ n u names → Solves θ s.constraints.toList →
        ∃ θ', Realises s s' θ θ' ∧ t.interpret θ' = u ∧
          ∃ types, bindings = monoBindings types ∧ typesUnder θ' types = names
  | .binder (x := x) (t := t) ht, hs', hs, _, u, _, htype, hθ => by
    obtain rfl := patternHasType_binder.1 htype
    obtain ⟨θ', hθ', hu⟩ := realises_fresh ht hs'.next hs hθ u
    exact ⟨θ', hθ', hu, [(x, t)], rfl, by rw [← hu]; rfl⟩
  | .literal, _, _, θ, _, _, htype, hθ => by
    obtain ⟨rfl, rfl⟩ := patternHasType_literal.1 htype
    exact ⟨θ, .refl hθ, rfl, [], rfl, rfl⟩
  | .tuple hps, hs', hs, _, _, _, htype, hθ => by
    obtain ⟨us, rfl, htypes⟩ := patternHasType_tuple.1 htype
    obtain ⟨θ', hθ', hus, hnames⟩ := hps.complete hs' hs htypes hθ
    exact ⟨θ', hθ', congrArg _ hus, hnames⟩
  | .constructor hc _ hps, hs', hs, _, _, _, htype, hθ => by
    obtain ⟨d, hd, rfl, rfl, htypes⟩ := patternHasType_constructor.1 htype
    obtain ⟨d', hd', hname, rfl, rfl⟩ := (hps.follows.bounded hs').declared.lookup hc
    obtain rfl := List.inj_on_of_nodup_map hs'.nodup hd hd' hname
    have hclosed : ∀ t ∈ d.parameters.map TypeExpr.toTy, t.occurrences = [] := fun t ht => by
      obtain ⟨e, -, rfl⟩ := List.mem_map.1 ht
      exact e.occurrences_toTy
    obtain ⟨θ', hθ', hnames⟩ := hps.complete hs' hs hclosed htypes
      (fun θ => interpretAll_parameters θ _) hθ
    exact ⟨θ', hθ', rfl, hnames⟩

theorem InfersPatterns.complete {ns ns' : List Node} {ts : List Ty}
    {bindings : List (String × Binding)} {s s' : InferState} {Γ : TypeEnvironment} :
    InfersPatterns ns s ns' ts bindings s' → s'.Bounded Δ → InOrder Γ s →
      ∀ {θ : TypeVar → SimpleType} {us : List SimpleType} {names : List (String × SimpleType)},
        PatternsHaveTypes Δ ns us names → Solves θ s.constraints.toList →
        ∃ θ', Realises s s' θ θ' ∧ Ty.interpretAll θ' ts = us ∧
          ∃ types, bindings = monoBindings types ∧ typesUnder θ' types = names
  | .nil, _, _, θ, _, _, htype, hθ => by
    obtain ⟨rfl, rfl⟩ := patternsHaveTypes_nil.1 htype
    exact ⟨θ, .refl hθ, rfl, [], rfl, rfl⟩
  | .cons hp hps, hs', hs, _, _, _, htype, hθ => by
    obtain ⟨u, us, first, more, rfl, rfl, hfirst, hmore⟩ := patternsHaveTypes_cons.1 htype
    have hb₁ := hps.follows.bounded hs'
    obtain ⟨h₁, hbindings⟩ := hs.pattern hp hb₁
    obtain ⟨θ₁, hθ₁, hu, types, rfl, rfl⟩ := hp.complete hb₁ hs hfirst hθ
    obtain ⟨θ₂, hθ₂, hus, types', rfl, rfl⟩ := hps.complete hs' h₁.inOrder hmore hθ₁.solves
    refine ⟨θ₂, hθ₁.trans hθ₂, ?_, types ++ types', List.map_append.symm, ?_⟩
    · rw [Ty.interpretAll, hθ₂.interpret h₁.earlier, hu, hus]
    · rw [← hθ₂.typesUnder hbindings]
      exact List.map_append

theorem InfersArguments.complete {ns ns' : List Node} {ts : List Ty}
    {bindings : List (String × Binding)} {s s' : InferState} {Γ : TypeEnvironment} :
    InfersArguments ns ts s ns' bindings s' → s'.Bounded Δ → InOrder Γ s →
      (∀ t ∈ ts, t.occurrences = []) →
      ∀ {θ : TypeVar → SimpleType} {us : List SimpleType} {names : List (String × SimpleType)},
        PatternsHaveTypes Δ ns us names → (∀ θ, Ty.interpretAll θ ts = us) →
        Solves θ s.constraints.toList →
        ∃ θ', Realises s s' θ θ' ∧ ∃ types, bindings = monoBindings types ∧
          typesUnder θ' types = names
  | .nil, _, _, _, θ, _, _, htype, _, hθ => by
    obtain ⟨-, rfl⟩ := patternsHaveTypes_nil.1 htype
    exact ⟨θ, .refl hθ, [], rfl, rfl⟩
  | .cons hp ht hps, hs', hs, hclosed, _, _, _, htype, hts, hθ => by
    obtain ⟨u, us, first, more, rfl, rfl, hfirst, hmore⟩ := patternsHaveTypes_cons.1 htype
    have hb₂ := hps.follows.bounded hs'
    have hb₁ := (follows_constrain ht).bounded hb₂
    obtain ⟨h₁, hbindings⟩ := hs.pattern hp hb₁
    have hs₂ := h₁.inOrder.constrain ht h₁.earlier fun v hv => by
      rw [hclosed _ List.mem_cons_self] at hv
      cases hv
    obtain ⟨θ₁, hθ₁, hu, types, rfl, rfl⟩ := hp.complete hb₁ hs hfirst hθ
    have hθ₁' := realises_constrain ht hθ₁.solves (hu.trans (List.cons.inj (hts θ₁)).1.symm)
    obtain ⟨θ₂, hθ₂, types', rfl, rfl⟩ := hps.complete hs' hs₂
      (fun t ht => hclosed t (List.mem_cons_of_mem _ ht)) hmore (fun θ => (List.cons.inj (hts θ)).2)
      hθ₁'.solves
    refine ⟨θ₂, hθ₁.trans (hθ₁'.trans hθ₂), types ++ types', List.map_append.symm, ?_⟩
    rw [← (hθ₁'.trans hθ₂).typesUnder hbindings]
    exact List.map_append

end

/-! ## 4. Expressions -/

namespace Types

/-- What a run on a tree leaves behind, and that it realises every derivation of the tree in a
    context that the environment admits. -/
structure Completed (Δ : List Declaration) (Γ : TypeEnvironment) (n : Node) (s : InferState)
    (t : Ty) (s' : InferState) : Prop extends Leaves Γ s t s' where
  realises : ∀ {θ : TypeVar → SimpleType} {Γ' : Context} {u : SimpleType}, Admits θ Γ.toList Γ' →
    HasType Δ Γ' n u → Solves θ s.constraints.toList → ∃ θ', Realises s s' θ θ' ∧ t.interpret θ' = u

variable {Γ : TypeEnvironment} {Γ' : Context} {θ : TypeVar → SimpleType} {m : Mark} {t u v r : Ty}
  {w : SimpleType} {s s₁ s₂ s₃ s₄ s' : InferState}

namespace Completed

theorem application {f a : Node} (hf : Completed Δ Γ f s t s₁) (ha : Completed Δ Γ a s₁ u s₂)
    (hr : Runs fresh s₂ r s₃) (hc : Runs (constrain t (.function u r) m.position) s₃ () s')
    (hs : InOrder Γ s) (hbound : s₃.nextVariable ≤ 2 ^ 32) (hΓ : Admits θ Γ.toList Γ')
    (htype : HasType Δ Γ' (.application m f a) w) (hθ : Solves θ s.constraints.toList) :
    ∃ θ', Realises s s' θ θ' ∧ r.interpret θ' = w := by
  obtain ⟨p, hfunction, hargument⟩ := hasType_application.1 htype
  obtain ⟨θ₁, hθ₁, ht⟩ := hf.realises hΓ hfunction hθ
  obtain ⟨θ₂, hθ₂, hu⟩ := ha.realises (hθ₁.admits hs hΓ) hargument hθ₁.solves
  obtain ⟨θ₃, hθ₃, hw⟩ := realises_fresh hr hbound ha.inOrder hθ₂.solves w
  have heq : t.interpret θ₃ = (Ty.function u r).interpret θ₃ := by
    rw [(hθ₂.trans hθ₃).interpret hf.earlier, ht, Ty.interpret, hθ₃.interpret ha.earlier, hu, hw]
  exact ⟨θ₃, (hθ₁.trans (hθ₂.trans hθ₃)).trans (realises_constrain hc hθ₃.solves heq), hw⟩

theorem letIn {x : String} {ascription : Option TypeExpr} {value body : Node}
    {earlier since : List Constraint} (hvalue : Completed Δ Γ value s t s₁)
    (ha : Agrees t m.position ascription s₁ s₂)
    (hcs : s₂.constraints.toList.splitAt s.constraints.size = (earlier, since))
    (hbody : Completed Δ (Γ.extend (x, generalize Γ earlier since t)) body s₂ u s')
    (hs : InOrder Γ s) (hΓ : Admits θ Γ.toList Γ')
    (htype : HasType Δ Γ' (.letIn m x ascription value body) w)
    (hθ : Solves θ s.constraints.toList) : ∃ θ', Realises s s' θ θ' ∧ u.interpret θ' = w := by
  obtain ⟨v, quantified, hascribed, hv, hfree, hw⟩ := hasType_letIn.1 htype
  obtain ⟨θ₁, hθ₁, rfl⟩ := hvalue.realises hΓ hv hθ
  have hθ₂ := hθ₁.trans (realises_agrees ha hθ₁.solves hascribed)
  have hΓ₂ := hθ₂.admits hs hΓ
  have hgeneral := entryAdmits_generalize (t := t) hΓ₂ (append_of_splitAt hcs ▸ hθ₂.solves) hfree
  obtain ⟨θ₃, hθ₃, hw⟩ := hbody.realises (.cons hgeneral hΓ₂) hw hθ₂.solves
  exact ⟨θ₃, hθ₂.trans hθ₃, hw⟩

theorem conditional {c a b : Node} (hc : Completed Δ Γ c s t s₁)
    (ht : Runs (constrain t .bool c.position) s₁ () s₂) (ha : Completed Δ Γ a s₂ u s₃)
    (hb : Completed Δ Γ b s₃ v s₄) (hu : Runs (constrain u v m.position) s₄ () s')
    (hs : InOrder Γ s) (hΓ : Admits θ Γ.toList Γ') (htype : HasType Δ Γ' (.conditional m c a b) w)
    (hθ : Solves θ s.constraints.toList) : ∃ θ', Realises s s' θ θ' ∧ u.interpret θ' = w := by
  obtain ⟨hcondition, hthen, helse⟩ := hasType_conditional.1 htype
  obtain ⟨θ₁, hθ₁, hbool⟩ := hc.realises hΓ hcondition hθ
  have hθ₂ := hθ₁.trans (realises_constrain ht hθ₁.solves hbool)
  obtain ⟨θ₃, hθ₃, hthen⟩ := ha.realises (hθ₂.admits hs hΓ) hthen hθ₂.solves
  obtain ⟨θ₄, hθ₄, helse⟩ := hb.realises ((hθ₂.trans hθ₃).admits hs hΓ) helse hθ₃.solves
  have hthen := (hθ₄.interpret ha.earlier).trans hthen
  have heq := realises_constrain hu hθ₄.solves (hthen.trans helse.symm)
  exact ⟨θ₄, ((hθ₂.trans hθ₃).trans hθ₄).trans heq, hthen⟩

/-- The operands of an operator have one type in a derivation. -/
theorem operands {o : BinaryOperator} {lhs rhs : Node} (hl : Completed Δ Γ lhs s t s₁)
    (hr : Completed Δ Γ rhs s₁ u s₂) (hs : InOrder Γ s) (hΓ : Admits θ Γ.toList Γ')
    (htype : HasType Δ Γ' (.binary m o lhs rhs) w) (hθ : Solves θ s.constraints.toList) :
    ∃ θ' operand, Realises s s₂ θ θ' ∧ t.interpret θ' = operand ∧ u.interpret θ' = operand ∧
      o.operatorClass.Relates operand w := by
  obtain ⟨operand, hrelates, hlhs, hrhs⟩ := hasType_binary.1 htype
  obtain ⟨θ₁, hθ₁, hlt⟩ := hl.realises hΓ hlhs hθ
  obtain ⟨θ₂, hθ₂, hru⟩ := hr.realises (hθ₁.admits hs hΓ) hrhs hθ₁.solves
  exact ⟨θ₂, operand, hθ₁.trans hθ₂, (hθ₂.interpret hl.earlier).trans hlt, hru, hrelates⟩

theorem ofInts {o : BinaryOperator} {lhs rhs : Node} (hl : Completed Δ Γ lhs s t s₁)
    (hr : Completed Δ Γ rhs s₁ u s₂) (ho : (o.operatorClass = .arithmetic ∧ v = .int) ∨
      (o.operatorClass = .relational ∧ v = .bool))
    (ht : Runs (constrain t .int lhs.position) s₂ () s₃)
    (hu : Runs (constrain u .int rhs.position) s₃ () s') (hs : InOrder Γ s)
    (hΓ : Admits θ Γ.toList Γ') (htype : HasType Δ Γ' (.binary m o lhs rhs) w)
    (hθ : Solves θ s.constraints.toList) : ∃ θ', Realises s s' θ θ' ∧ v.interpret θ' = w := by
  obtain ⟨θ', operand, hθ', hlt, hru, hrelates⟩ := hl.operands hr hs hΓ htype hθ
  have hint : operand = .int ∧ v.interpret θ' = w := by
    rcases ho with ⟨ho, rfl⟩ | ⟨ho, rfl⟩ <;>
      (rw [ho] at hrelates; exact ⟨hrelates.1, hrelates.2.symm⟩)
  have h₃ := realises_constrain ht hθ'.solves (hlt.trans hint.1)
  have h₄ := realises_constrain hu h₃.solves (hru.trans hint.1)
  exact ⟨θ', hθ'.trans (h₃.trans h₄), hint.2⟩

theorem equality {o : BinaryOperator} {lhs rhs : Node} (hl : Completed Δ Γ lhs s t s₁)
    (hr : Completed Δ Γ rhs s₁ u s₂) (ho : o.operatorClass = .equality)
    (ht : Runs (constrain t u m.position) s₂ () s') (hs : InOrder Γ s) (hΓ : Admits θ Γ.toList Γ')
    (htype : HasType Δ Γ' (.binary m o lhs rhs) w) (hθ : Solves θ s.constraints.toList) :
    ∃ θ', Realises s s' θ θ' ∧ Ty.bool.interpret θ' = w := by
  obtain ⟨θ', operand, hθ', hlt, hru, hrelates⟩ := hl.operands hr hs hΓ htype hθ
  rw [ho] at hrelates
  exact ⟨θ', hθ'.trans (realises_constrain ht hθ'.solves (hlt.trans hru.symm)), hrelates.symm⟩

end Completed

/-- A run on trees from left to right realises every derivation of them. -/
structure CompletedAll (Δ : List Declaration) (Γ : TypeEnvironment) (ns : List Node)
    (s : InferState) (ts : List Ty) (s' : InferState) : Prop where
  realises : ∀ {θ : TypeVar → SimpleType} {Γ' : Context} {us : List SimpleType},
    Admits θ Γ.toList Γ' → HaveTypes Δ Γ' ns us → Solves θ s.constraints.toList →
    ∃ θ', Realises s s' θ θ' ∧ Ty.interpretAll θ' ts = us

theorem Completed.cons {n : Node} {ns : List Node} {ts : List Ty} (hn : Completed Δ Γ n s t s₁)
    (hns : CompletedAll Δ Γ ns s₁ ts s') (hs : InOrder Γ s) :
    CompletedAll Δ Γ (n :: ns) s (t :: ts) s' := by
  refine ⟨fun hΓ htypes hθ => ?_⟩
  obtain ⟨u, us, rfl, hu, hus⟩ := haveTypes_cons.1 htypes
  obtain ⟨θ₁, hθ₁, hu⟩ := hn.realises hΓ hu hθ
  obtain ⟨θ₂, hθ₂, hus⟩ := hns.realises (hθ₁.admits hs hΓ) hus hθ₁.solves
  exact ⟨θ₂, hθ₁.trans hθ₂, by rw [Ty.interpretAll, hθ₂.interpret hn.earlier, hu, hus]⟩

/-- A run on the functions of a group realises every derivation of them. -/
structure CompletedGroup (Δ : List Declaration) (Γ : TypeEnvironment) (ns : List Node)
    (types : List (Ty × Ty)) (s s' : InferState) : Prop where
  realises : ∀ {declared : List (String × Ty × Ty)} {group : List GroupEntry}
    {θ : TypeVar → SimpleType} {Γ' : Context}, types = declared.map Prod.snd →
    List.Forall₂ (Stands θ) declared group → Admits θ Γ.toList Γ' → GroupHasTypes Δ Γ' ns group →
    Solves θ s.constraints.toList → ∃ θ', Realises s s' θ θ'

theorem Completed.group {f x : String} {pa ra : Option TypeExpr} {body : Node} {rest : List Node}
    {p : Ty} {types : List (Ty × Ty)} (hbody : Completed Δ (Γ.extend (x, .mono p)) body s t s₁)
    (ht : Runs (constrain t r m.position) s₁ () s₂) (hrest : CompletedGroup Δ Γ rest types s₂ s')
    (hs : InOrder Γ s)
    (hearlier : ∀ type ∈ (p, r) :: types, Earlier s (Ty.function type.1 type.2).occurrences) :
    CompletedGroup Δ Γ (.letRecArm m f x pa ra body :: rest) ((p, r) :: types) s s' := by
  refine ⟨fun {declared group θ Γ'} hdeclared hstands hΓ hgroup hθ => ?_⟩
  obtain ⟨e, es, rfl, -, -, -, hresult, hmore⟩ := groupHasTypes_cons.1 hgroup
  obtain ⟨⟨_, _, _⟩, ds, hd, hds, rfl⟩ := List.forall₂_cons_right_iff.1 hstands
  rw [List.map_cons, List.cons.injEq] at hdeclared
  obtain ⟨⟨⟩, rfl⟩ := hdeclared
  have hparameter : p.interpret θ = e.parameter := hd.parameter
  obtain ⟨θ₁, hθ₁, ht₁⟩ :=
    hbody.realises (.cons (entryAdmits_mono _ _) hΓ) (hparameter ▸ hresult) hθ
  have hr : r.interpret θ₁ = e.result :=
    (hθ₁.interpret fun v hv => hearlier _ List.mem_cons_self v (List.mem_append_right _ hv)).trans
      hd.result
  have hθ₂ := hθ₁.trans (realises_constrain ht hθ₁.solves (ht₁.trans hr.symm))
  obtain ⟨θ₃, hθ₃⟩ := hrest.realises rfl
    (hθ₂.stands hds fun type htype => hearlier type (List.mem_cons_of_mem _ htype))
    (hθ₂.admits hs hΓ) hmore hθ₂.solves
  exact ⟨θ₃, hθ₂.trans hθ₃⟩

theorem Completed.letRec {arms : List Node} {body : Node} {declared : List (String × Ty × Ty)}
    {earlier since : List Constraint} (hdeclared : Runs (declareGroup arms) s declared s₁)
    (harms : CompletedGroup Δ
      (Γ.extendAll (declared.map fun (f, p, r) => (f, .mono (.function p r)))) arms
      (declared.map Prod.snd) s₁ s₂)
    (hcs : s₂.constraints.toList.splitAt s₁.constraints.size = (earlier, since))
    (hbody : Completed Δ
      (Γ.extendAll (declared.map fun (f, p, r) => (f, generalize Γ earlier since (.function p r))))
      body s₂ u s')
    (hs : InOrder Γ s) (hbound : s₁.nextVariable ≤ 2 ^ 32) (hΓ : Admits θ Γ.toList Γ')
    (htype : HasType Δ Γ' (.letRec m arms body) w) (hθ : Solves θ s.constraints.toList) :
    ∃ θ', Realises s s' θ θ' ∧ u.interpret θ' = w := by
  obtain ⟨group, hgroup, hfree, hw⟩ := hasType_letRec.1 htype
  obtain ⟨θ₁, hθ₁, hstands⟩ := realises_declareGroup hdeclared hbound hs hgroup hθ
  obtain ⟨θ₂, hθ₂⟩ :=
    harms.realises rfl hstands ((hθ₁.admits hs hΓ).group hstands) hgroup hθ₁.solves
  have hstands₂ := hθ₂.stands hstands (hs.group hdeclared hbound).2
  have hΓ₂ := ((hθ₁.trans hθ₂).admits hs hΓ).behindGroup hstands₂
    (append_of_splitAt hcs ▸ hθ₂.solves) hfree
  obtain ⟨θ₃, hθ₃, hw⟩ := hbody.realises hΓ₂ hw hθ₂.solves
  exact ⟨θ₃, (hθ₁.trans hθ₂).trans hθ₃, hw⟩

/-- A run on the arms of a `match` realises every derivation of them. -/
structure CompletedArms (Δ : List Declaration) (Γ : TypeEnvironment) (t r : Ty) (ns : List Node)
    (s s' : InferState) : Prop where
  realises : ∀ {θ : TypeVar → SimpleType} {Γ' : Context}, Admits θ Γ.toList Γ' →
    ArmsHaveType Δ Γ' (t.interpret θ) ns (r.interpret θ) → Solves θ s.constraints.toList →
    ∃ θ', Realises s s' θ θ'

theorem Completed.arm {p p' body : Node} {rest : List Node} {bindings : List (String × Binding)}
    (hp : InfersPattern p s p' u bindings s₁) (ht : Runs (constrain t u p.position) s₁ () s₂)
    (hbody : Completed Δ (Γ.extendAll bindings) body s₂ v s₃)
    (hr : Runs (constrain v r m.position) s₃ () s₄) (hrest : CompletedArms Δ Γ t r rest s₄ s')
    (hs₁ : s₁.Bounded Δ) (hs : InOrder Γ s) (htv : Earlier s t.occurrences)
    (hrv : Earlier s r.occurrences) : CompletedArms Δ Γ t r (.matchArm m p body :: rest) s s' := by
  refine ⟨fun {θ Γ'} hΓ harms hθ => ?_⟩
  obtain ⟨⟨names, hpattern, hresult⟩, hmore⟩ := armsHaveType_cons.1 harms
  obtain ⟨θ₁, hθ₁, hu, types, rfl, rfl⟩ := hp.complete hs₁ hs hpattern hθ
  have hθ₂ := hθ₁.trans (realises_constrain ht hθ₁.solves ((hθ₁.interpret htv).trans hu.symm))
  obtain ⟨θ₃, hθ₃, hv⟩ := hbody.realises ((hθ₂.admits hs hΓ).pattern types) hresult hθ₂.solves
  have hr₃ := (hθ₂.trans hθ₃).interpret hrv
  have hθ₄ := (hθ₂.trans hθ₃).trans (realises_constrain hr hθ₃.solves (hv.trans hr₃.symm))
  rw [← hθ₄.interpret htv, ← hθ₄.interpret hrv] at hmore
  obtain ⟨θ₅, hθ₅⟩ := hrest.realises (hθ₄.admits hs hΓ) hmore hθ₄.solves
  exact ⟨θ₅, hθ₄.trans hθ₅⟩

theorem Completed.matchWith {e : Node} {arms : List Node} (he : Completed Δ Γ e s t s₁)
    (hr : Runs fresh s₁ r s₂) (harms : CompletedArms Δ Γ t r arms s₂ s') (hs : InOrder Γ s)
    (hbound : s₂.nextVariable ≤ 2 ^ 32) (hΓ : Admits θ Γ.toList Γ')
    (htype : HasType Δ Γ' (.matchWith m e arms) w) (hθ : Solves θ s.constraints.toList) :
    ∃ θ', Realises s s' θ θ' ∧ r.interpret θ' = w := by
  obtain ⟨t, ht, hw⟩ := hasType_matchWith.1 htype
  obtain ⟨θ₁, hθ₁, rfl⟩ := he.realises hΓ ht hθ
  obtain ⟨θ₂, hθ₂, rfl⟩ := realises_fresh hr hbound he.inOrder hθ₁.solves w
  rw [← hθ₂.interpret he.earlier] at hw
  obtain ⟨θ₃, hθ₃⟩ := harms.realises ((hθ₁.trans hθ₂).admits hs hΓ) hw hθ₂.solves
  exact ⟨θ₃, (hθ₁.trans hθ₂).trans hθ₃, hθ₃.interpret (he.inOrder.fresh hr hbound).earlier⟩

end Types

mutual

/-- **Inference is complete.** A derivation of the tree, in a context that the environment admits,
    is realised by a run: the equations have a solution that leaves alone what was there before, and
    gives the root the type of the derivation. -/
theorem Infers.complete {Γ : TypeEnvironment} {n n' : Node} {t : Ty} {s s' : InferState} :
    Infers generalize Γ n s n' t s' → n.NoProjection → s'.Bounded Δ → InOrder Γ s →
      Completed Δ Γ n s t s'
  | .top he, hn, hs', hs =>
    have h := he.complete (hn.child (.head _)) hs' hs
    ⟨h.toLeaves, fun hΓ htype hθ => h.realises hΓ (hasType_top.1 htype) hθ⟩
  | h@.literal, hn, hs', hs => ⟨h.leaves hn hs' hs, fun _ htype hθ =>
    ⟨_, .refl hθ, (hasType_literal.1 htype).symm⟩⟩
  | h@(.mono hx), hn, hs', hs => by
    refine ⟨h.leaves hn hs' hs, fun hΓ htype hθ => ?_⟩
    obtain ⟨σ, hσ, hu⟩ := hasType_reference.1 htype
    exact ⟨_, .refl hθ, hΓ.lookup hx hσ _ hu⟩
  | h@(.poly hx ht), hn, hs', hs => by
    refine ⟨h.leaves hn hs' hs, fun hΓ htype hθ => ?_⟩
    obtain ⟨σ, hσ, hu⟩ := hasType_reference.1 htype
    have hfree := fun v hv => hs.environment v (mem_environmentVariables_of_lookup? hx v hv)
    exact realises_instantiate ht hs'.next hs hθ hfree (hΓ.lookup hx hσ) hu
  | h@(.printer hb ht), hn, hs', hs => by
    refine ⟨h.leaves hn hs' hs, fun hΓ htype hθ => ?_⟩
    obtain ⟨p, r, rfl, hr⟩ := hasType_builtin.1 htype
    obtain rfl := hr.resolve_left hb
    obtain ⟨θ', hθ', rfl⟩ := realises_fresh ht hs'.next hs hθ p
    exact ⟨θ', hθ', rfl⟩
  | h@(.panic ht hu), hn, hs', hs => by
    refine ⟨h.leaves hn hs' hs, fun hΓ htype hθ => ?_⟩
    obtain ⟨p, r, rfl, -⟩ := hasType_builtin.1 htype
    have hbound := Nat.le_trans (follows_fresh hu).next hs'.next
    have h₁ := hs.fresh ht hbound
    obtain ⟨θ₁, hθ₁, hp⟩ := realises_fresh ht hbound hs hθ p
    obtain ⟨θ₂, hθ₂, hr⟩ := realises_fresh hu hs'.next h₁.inOrder hθ₁.solves r
    -- the second variable is made later, and its value leaves the first one alone
    exact ⟨θ₂, hθ₁.trans hθ₂, by rw [Ty.interpret, hθ₂.interpret h₁.earlier, hp, hr]⟩
  | h@(.lambda ht hbody), hn, hs', hs => by
    have hbound := (hbody.follows.bounded hs').next
    have h₁ := hs.ascribedOrFresh ht hbound
    have h₂ := hbody.complete (hn.child (.head _)) hs' (h₁.inOrder.extendMono h₁.earlier)
    refine ⟨h.leaves hn hs' hs, fun hΓ htype hθ => ?_⟩
    obtain ⟨p, r, rfl, ha, hr⟩ := hasType_lambda.1 htype
    obtain ⟨θ₁, hθ₁, rfl⟩ := realises_ascribedOrFresh ht hbound hs hθ ha
    obtain ⟨θ₂, hθ₂, rfl⟩ :=
      h₂.realises (.cons (entryAdmits_mono _ _) (hθ₁.admits hs hΓ)) hr hθ₁.solves
    exact ⟨θ₂, hθ₁.trans hθ₂, by rw [Ty.interpret, hθ₂.interpret h₁.earlier]⟩
  | h@(.application hf ha hr hc), hn, hs', hs => by
    have hb₃ := (follows_constrain hc).bounded hs'
    have hb₂ := (follows_fresh hr).bounded hb₃
    have h₁ := hf.complete (hn.child (.head _)) (ha.follows.bounded hb₂) hs
    have h₂ := ha.complete (hn.child (.tail _ (.head _))) hb₂ h₁.inOrder
    exact ⟨h.leaves hn hs' hs, h₁.application h₂ hr hc hs hb₃.next⟩
  | h@(.letIn hvalue ha hcs hbody), hn, hs', hs => by
    have hb₂ := hbody.follows.bounded hs'
    have h₁ := hvalue.complete (hn.child (.head _)) ((follows_agrees ha).bounded hb₂) hs
    have hs₂ := h₁.inOrder.agrees ha h₁.earlier
    have h₂ := hbody.complete (hn.child (.tail _ (.head _))) hs' hs₂.generalize
    exact ⟨h.leaves hn hs' hs, h₁.letIn ha hcs h₂ hs⟩
  | h@(.letRec hdeclared harms hcs hbody), hn, hs', hs => by
    have hb₂ := hbody.follows.bounded hs'
    have hb₁ := harms.follows.bounded hb₂
    have harms' : ∀ c ∈ _, Node.NoProjection c := fun c hc => hn.child (List.mem_append_left _ hc)
    obtain ⟨hs₁, htypes⟩ := hs.group hdeclared hb₁.next
    have hs₂ := harms.inOrder harms' hb₂ hs₁ htypes (hs.declared hdeclared hb₁.next)
    have h₂ := hbody.complete (hn.child (by simp [Node.children])) hs' hs₂.behindGroup
    exact ⟨h.leaves hn hs' hs,
      Completed.letRec hdeclared (harms.complete harms' hb₂ hs₁ htypes) hcs h₂ hs hb₁.next⟩
  | h@(.conditional hc ht ha hb hu), hn, hs', hs => by
    have hb₄ := (follows_constrain hu).bounded hs'
    have hb₃ := hb.follows.bounded hb₄
    have hb₂ := ha.follows.bounded hb₃
    have h₁ := hc.complete (hn.child (.head _)) ((follows_constrain ht).bounded hb₂) hs
    have hs₂ := h₁.inOrder.constrain ht h₁.earlier fun _ hv => nomatch hv
    have h₃ := ha.complete (hn.child (.tail _ (.head _))) hb₃ hs₂
    have h₄ := hb.complete (hn.child (.tail _ (.tail _ (.head _)))) hb₄ h₃.inOrder
    exact ⟨h.leaves hn hs' hs, h₁.conditional ht h₃ h₄ hu hs⟩
  | h@(.ofInts ho hl hr ht hu), hn, hs', hs => by
    have hb₂ := ((follows_constrain ht).trans (follows_constrain hu)).bounded hs'
    have h₁ := hl.complete (hn.child (.head _)) (hr.follows.bounded hb₂) hs
    have h₂ := hr.complete (hn.child (.tail _ (.head _))) hb₂ h₁.inOrder
    exact ⟨h.leaves hn hs' hs, h₁.ofInts h₂ ho ht hu hs⟩
  | h@(.equality ho hl hr ht), hn, hs', hs => by
    have hb₂ := (follows_constrain ht).bounded hs'
    have h₁ := hl.complete (hn.child (.head _)) (hr.follows.bounded hb₂) hs
    have h₂ := hr.complete (hn.child (.tail _ (.head _))) hb₂ h₁.inOrder
    exact ⟨h.leaves hn hs' hs, h₁.equality h₂ ho ht hs⟩
  | h@(.unary he ht), hn, hs', hs => by
    have h₁ := he.complete (hn.child (.head _)) ((follows_constrain ht).bounded hs') hs
    refine ⟨h.leaves hn hs' hs, fun hΓ htype hθ => ?_⟩
    obtain ⟨rfl, hoperand⟩ := hasType_unary.1 htype
    obtain ⟨θ₁, hθ₁, hint⟩ := h₁.realises hΓ hoperand hθ
    exact ⟨θ₁, hθ₁.trans (realises_constrain ht hθ₁.solves hint), rfl⟩
  | h@(.sequence hes), hn, hs', hs => by
    refine ⟨h.leaves hn hs' hs, fun hΓ htype hθ => ?_⟩
    obtain ⟨us, rfl, hus⟩ := hasType_sequence.1 htype
    obtain ⟨θ', hθ', rfl⟩ := (hes.complete (fun c hc => hn.child hc) hs' hs).realises hΓ hus hθ
    exact ⟨θ', hθ', interpret_getLastD θ' _⟩
  | h@(.tuple hes), hn, hs', hs => by
    refine ⟨h.leaves hn hs' hs, fun hΓ htype hθ => ?_⟩
    obtain ⟨us, rfl, hus⟩ := hasType_tuple.1 htype
    obtain ⟨θ', hθ', rfl⟩ := (hes.complete (fun c hc => hn.child hc) hs' hs).realises hΓ hus hθ
    exact ⟨θ', hθ', rfl⟩
  | .projection _ _ _, hn, _, _ => absurd rfl hn.here
  | h@(.dataType hcs hbody), hn, hs', hs => by
    have h₁ := hbody.complete (hn.child (by simp [Node.children])) hs' (hs.dataType hcs)
    refine ⟨h.leaves hn hs' hs, fun hΓ htype hθ => ?_⟩
    obtain ⟨-, hw⟩ := hasType_dataType.1 htype
    -- declarations make no equations, so that the valuation is one for the body
    rw [← constraints_declareConstructors hcs] at hθ
    obtain ⟨hfollows, rfl, -⟩ := runs_declareConstructors hcs
    obtain ⟨θ', hθ', hw⟩ := h₁.realises hΓ.declared hw hθ
    exact ⟨θ', ⟨Nat.le_trans hfollows.next hθ'.next,
      fun v hv => hθ'.agrees v (Nat.lt_of_lt_of_le hv hfollows.next), hθ'.solves⟩, hw⟩
  | h@(.matchWith he hr harms), hn, hs', hs => by
    have hb₂ := harms.follows.bounded hs'
    have h₁ := he.complete (hn.child (.head _)) ((follows_fresh hr).bounded hb₂) hs
    have h₂ := h₁.inOrder.fresh hr hb₂.next
    have h₃ := harms.complete (fun c hc => hn.child (List.mem_cons_of_mem _ hc)) hs' h₂.inOrder
      (h₁.earlier.mono h₂.next) h₂.earlier
    exact ⟨h.leaves hn hs' hs, h₁.matchWith hr h₃ hs hb₂.next⟩

theorem InfersAll.complete {Γ : TypeEnvironment} {ns ns' : List Node} {ts : List Ty}
    {s s' : InferState} : InfersAll generalize Γ ns s ns' ts s' → (∀ n ∈ ns, n.NoProjection) →
      s'.Bounded Δ → InOrder Γ s → CompletedAll Δ Γ ns s ts s'
  | .nil, _, _, _ => ⟨fun _ htypes hθ => ⟨_, .refl hθ, (haveTypes_nil.1 htypes).symm⟩⟩
  | .cons hn hns, hall, hs', hs => by
    have h₁ := hn.complete (hall _ List.mem_cons_self) (hns.follows.bounded hs') hs
    exact h₁.cons (hns.complete (fun c hc => hall c (List.mem_cons_of_mem _ hc)) hs' h₁.inOrder) hs

theorem InfersGroup.complete {Γ : TypeEnvironment} {ns ns' : List Node} {types : List (Ty × Ty)}
    {s s' : InferState} : InfersGroup generalize Γ ns types s ns' s' →
      (∀ n ∈ ns, n.NoProjection) → s'.Bounded Δ → InOrder Γ s →
      (∀ type ∈ types, Earlier s (Ty.function type.1 type.2).occurrences) →
      CompletedGroup Δ Γ ns types s s'
  | .nil, _, _, _, _ => ⟨fun _ _ _ _ hθ => ⟨_, .refl hθ⟩⟩
  | .cons (x := x) (p := p) hbody ht hrest, hall, hs', hs, htypes => by
    have hb₂ := hrest.follows.bounded hs'
    have hfirst := htypes _ List.mem_cons_self
    have hs₀ : InOrder (Γ.extend (x, .mono p)) _ :=
      hs.extendMono fun v hv => hfirst v (List.mem_append_left _ hv)
    have h₁ := hbody.complete ((hall _ List.mem_cons_self).child (.head _))
      ((follows_constrain ht).bounded hb₂) hs₀
    have hs₂ := (h₁.inOrder.constrain ht h₁.earlier fun v hv =>
      (hfirst.mono h₁.next) v (List.mem_append_right _ hv)).outer
    have hle := (hbody.follows.trans (follows_constrain ht)).next
    have h₂ := hrest.complete (fun c hc => hall c (List.mem_cons_of_mem _ hc)) hs' hs₂
      fun type htype => (htypes type (List.mem_cons_of_mem _ htype)).mono hle
    exact h₁.group ht h₂ hs htypes

theorem InfersArms.complete {Γ : TypeEnvironment} {ns ns' : List Node} {t r : Ty}
    {s s' : InferState} : InfersArms generalize Γ t r ns s ns' s' →
      (∀ n ∈ ns, n.NoProjection) → s'.Bounded Δ → InOrder Γ s → Earlier s t.occurrences →
      Earlier s r.occurrences → CompletedArms Δ Γ t r ns s s'
  | .nil, _, _, _, _, _ => ⟨fun _ _ hθ => ⟨_, .refl hθ⟩⟩
  | .cons hp ht hbody hr hrest, hall, hs', hs, htv, hrv => by
    have hb₄ := hrest.follows.bounded hs'
    have hb₃ := (follows_constrain hr).bounded hb₄
    have hb₁ := (follows_constrain ht).bounded (hbody.follows.bounded hb₃)
    obtain ⟨h₁, hbindings⟩ := hs.pattern hp hb₁
    have hle₂ := Nat.le_trans h₁.next (follows_constrain ht).next
    have hle₃ := Nat.le_trans hle₂ hbody.follows.next
    have hle₄ := Nat.le_trans hle₃ (follows_constrain hr).next
    have hs₂ :=
      (h₁.inOrder.constrain ht (htv.mono h₁.next) h₁.earlier).extendAll fun entry hentry =>
      (hbindings entry hentry).mono (follows_constrain ht).next
    have h₃ := hbody.complete ((hall _ List.mem_cons_self).child (.tail _ (.head _))) hb₃ hs₂
    have hs₄ := (h₃.inOrder.constrain hr h₃.earlier (hrv.mono hle₃)).outerAll
    have h₄ := hrest.complete (fun c hc => hall c (List.mem_cons_of_mem _ hc)) hs' hs₄
      (htv.mono hle₄) (hrv.mono hle₄)
    exact Completed.arm hp ht h₃ hr h₄ hb₁ hs htv hrv

end

end ClosureML
