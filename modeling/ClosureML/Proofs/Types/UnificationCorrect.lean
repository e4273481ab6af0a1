import ClosureML.Proofs.Types.SimpleType
import ClosureML.Types.Unification

/-!
# Unification is correct

A valuation solves an equation when both its sides stand for the same simple type. Solving keeps
the set of these valuations: they are the ones that a solution's bindings agree with.

* `Solves`: the valuation makes all equations hold;
* `Substitution.AgreesWith`: a bound variable stands for what its type stands for;
* `Substitution.Idempotent`: no bound variable occurs in a type that a variable is bound to;
* `Substitution.Apart`: the equations hold no bound variable.

Main statements: `unifyFrom_spec` (what one run preserves, and that it fails only when no valuation
is left), `solve_ok`, `solve_of_solves` (completeness), `extend_ok`, `agreesWith_after`.
-/

namespace ClosureML

/-! ## 1. Solutions -/

/-- Both sides of the equation stand for the same type. -/
def Constraint.Holds (θ : TypeVar → SimpleType) (c : Constraint) : Prop :=
  c.left.interpret θ = c.right.interpret θ

/-- The valuation makes all the equations hold. -/
def Solves (θ : TypeVar → SimpleType) (cs : List Constraint) : Prop := ∀ c ∈ cs, c.Holds θ

theorem solves_nil (θ : TypeVar → SimpleType) : Solves θ [] := fun _ h => nomatch h

@[simp] theorem solves_cons {θ : TypeVar → SimpleType} {c : Constraint} {cs : List Constraint} :
    Solves θ (c :: cs) ↔ c.Holds θ ∧ Solves θ cs := List.forall_mem_cons

@[simp] theorem solves_append {θ : TypeVar → SimpleType} {cs ds : List Constraint} :
    Solves θ (cs ++ ds) ↔ Solves θ cs ∧ Solves θ ds := List.forall_mem_append

/-- Whether equations hold depends on their own variables only. -/
theorem Solves.congr {θ θ' : TypeVar → SimpleType} {cs : List Constraint} (h : Solves θ cs)
    (heq : ∀ v ∈ cs.flatMap Constraint.occurrences, θ v = θ' v) : Solves θ' cs := by
  intro c hc
  have hside : ∀ v ∈ c.occurrences, θ v = θ' v := fun v hv =>
    heq v (List.mem_flatMap.2 ⟨c, hc, hv⟩)
  have hl := Ty.interpret_congr c.left fun v hv => hside v (List.mem_append_left _ hv)
  have hr := Ty.interpret_congr c.right fun v hv => hside v (List.mem_append_right _ hv)
  exact hl.symm.trans ((h c hc).trans hr)

/-- A valuation solves the equations after a substitution when the valuation behind the
    substitution solves them. -/
theorem solves_map_substitute {θ : TypeVar → SimpleType} {σ : TypeVar → Option Ty}
    {cs : List Constraint} :
    Solves θ (cs.map (Constraint.substitute σ)) ↔ Solves (Ty.after θ σ) cs := by
  simp only [Solves, List.forall_mem_map, Constraint.Holds, Constraint.substitute,
    Ty.interpret_substitute]

/-- The equations between the parts of two lists of one length hold when the lists stand for the
    same. -/
theorem solves_pairwise {θ : TypeVar → SimpleType} {position : Position} {ts us : List Ty}
    (h : ts.length = us.length) :
    Solves θ (pairwise position ts us) ↔ Ty.interpretAll θ ts = Ty.interpretAll θ us := by
  induction ts generalizing us with
  | nil =>
    cases us with
    | nil => simp [pairwise, solves_nil]
    | cons u us => cases h
  | cons t ts ih =>
    cases us with
    | nil => cases h
    | cons u us =>
      have hrest := ih (Nat.succ.inj h)
      simp only [pairwise] at hrest
      simp only [pairwise, List.zipWith_cons_cons, solves_cons, Ty.interpretAll, List.cons.injEq,
        hrest, Constraint.Holds]

/-! ## 2. What substitutions say -/

namespace Ty

mutual

/-- A variable of a type after a substitution comes from one of the type's own variables. -/
theorem mem_occurrences_substitute {σ : TypeVar → Option Ty} {w : TypeVar} :
    ∀ t : Ty, w ∈ (t.substitute σ).occurrences →
      ∃ v ∈ t.occurrences, w ∈ ((σ v).getD (var v)).occurrences
  | base _, h => by simp [substitute, occurrences] at h
  | data _, h => by simp [substitute, occurrences] at h
  | function p r, h => by
    rw [substitute, occurrences, List.mem_append] at h
    rcases h with h | h
    · obtain ⟨v, hv, hw⟩ := mem_occurrences_substitute p h
      exact ⟨v, by simp [occurrences, hv], hw⟩
    · obtain ⟨v, hv, hw⟩ := mem_occurrences_substitute r h
      exact ⟨v, by simp [occurrences, hv], hw⟩
  | tuple ts, h => by
    rw [substitute, occurrences] at h
    obtain ⟨v, hv, hw⟩ := mem_occurrencesAll_substituteAll ts h
    exact ⟨v, by simpa [occurrences] using hv, hw⟩
  | var v, h => ⟨v, by simp [occurrences], h⟩

theorem mem_occurrencesAll_substituteAll {σ : TypeVar → Option Ty} {w : TypeVar} :
    ∀ ts : List Ty, w ∈ occurrencesAll (substituteAll σ ts) →
      ∃ v ∈ occurrencesAll ts, w ∈ ((σ v).getD (var v)).occurrences
  | [], h => by simp [substituteAll, occurrencesAll] at h
  | t :: ts, h => by
    rw [substituteAll, occurrencesAll, List.mem_append] at h
    rcases h with h | h
    · obtain ⟨v, hv, hw⟩ := mem_occurrences_substitute t h
      exact ⟨v, by simp [occurrencesAll, hv], hw⟩
    · obtain ⟨v, hv, hw⟩ := mem_occurrencesAll_substituteAll ts h
      exact ⟨v, by simp [occurrencesAll, hv], hw⟩

end

end Ty

namespace Substitution

/-- A bound variable stands for what the type that it is bound to stands for. -/
def AgreesWith (s : Substitution) (θ : TypeVar → SimpleType) : Prop :=
  ∀ v t, s.find? v = some t → t.interpret θ = θ v

/-- No bound variable occurs in a type that a variable is bound to. -/
def Idempotent (s : Substitution) : Prop :=
  ∀ v t, s.find? v = some t → ∀ w ∈ t.occurrences, s.find? w = none

/-- The equations hold no variable that is bound. -/
def Apart (s : Substitution) (cs : List Constraint) : Prop :=
  ∀ v ∈ cs.flatMap Constraint.occurrences, s.find? v = none

theorem agreesWith_empty (θ : TypeVar → SimpleType) : empty.AgreesWith θ := fun _ _ h => nomatch h

theorem idempotent_empty : empty.Idempotent := fun _ _ h => nomatch h

theorem apart_empty (cs : List Constraint) : empty.Apart cs := fun _ _ => rfl

/-- Behind a substitution that agrees with it, a valuation is itself. -/
theorem AgreesWith.after {s : Substitution} {θ : TypeVar → SimpleType} (h : s.AgreesWith θ) :
    Ty.after θ s.find? = θ := by
  funext v
  rw [Ty.after]
  cases hv : s.find? v with
  | none => rfl
  | some t => exact h v t hv

/-- Applying a substitution that agrees with a valuation does not change what a type stands for. -/
theorem AgreesWith.interpret_apply {s : Substitution} {θ : TypeVar → SimpleType}
    (h : s.AgreesWith θ) (t : Ty) : (s.apply t).interpret θ = t.interpret θ := by
  rw [apply, Ty.interpret_substitute, h.after]

/-- Behind an idempotent substitution every valuation agrees with it. -/
theorem agreesWith_after {s : Substitution} (h : s.Idempotent) (θ : TypeVar → SimpleType) :
    s.AgreesWith (Ty.after θ s.find?) := by
  intro v t hv
  rw [← Ty.interpret_substitute, Ty.substitute_eq_self t (h v t hv), Ty.after, hv]
  rfl

/-- An applied type holds no variable that is bound. -/
theorem find?_of_mem_apply {s : Substitution} (h : s.Idempotent) {v : TypeVar} :
    ∀ t : Ty, v ∈ (s.apply t).occurrences → s.find? v = none := by
  intro t hv
  obtain ⟨w, -, hw⟩ := Ty.mem_occurrences_substitute t hv
  cases hbound : s.find? w with
  | none =>
    rw [hbound] at hw
    rw [List.mem_singleton.1 hw]
    exact hbound
  | some u =>
    rw [hbound] at hw
    exact h w u hbound v hw

/-- Applied equations hold no variable that is bound. -/
theorem apart_applyConstraint {s : Substitution} (h : s.Idempotent) (cs : List Constraint) :
    s.Apart (cs.map s.applyConstraint) := by
  intro v hv
  obtain ⟨_, hc, hv⟩ := List.mem_flatMap.1 hv
  obtain ⟨c, -, rfl⟩ := List.mem_map.1 hc
  rcases List.mem_append.1 hv with hv | hv
  · exact find?_of_mem_apply h c.left hv
  · exact find?_of_mem_apply h c.right hv

/-! ## 3. Binding a variable -/

section Bind

variable {s : Substitution} {v : TypeVar} {t : Ty}

/-- A valuation in which a variable stands for what its replacement stands for does not see the
    replacement. -/
theorem after_single {θ : TypeVar → SimpleType} (h : θ v = t.interpret θ) :
    Ty.after θ (Ty.single v t) = θ := by
  funext w
  by_cases hw : w = v
  · subst hw
    simp [Ty.after, Ty.single, h]
  · simp [Ty.after, Ty.single, hw, Ty.interpret]

/-- **A binding adds one equation** to what a substitution says. -/
theorem agreesWith_bind (hv : s.find? v = none) {θ : TypeVar → SimpleType} :
    (s.bind v t).AgreesWith θ ↔ s.AgreesWith θ ∧ θ v = t.interpret θ := by
  constructor
  · intro h
    have hbound : θ v = t.interpret θ := (h v t (by simp [find?_bind])).symm
    refine ⟨fun w u hw => ?_, hbound⟩
    have hne : w ≠ v := fun e => by rw [e, hv] at hw; cases hw
    have := h w (u.substitute (Ty.single v t)) (by simp [find?_bind, hne, hw])
    rwa [Ty.interpret_substitute, after_single hbound] at this
  · rintro ⟨h, hbound⟩ w u hw
    rw [find?_bind] at hw
    split at hw
    · next e =>
      cases hw
      rw [e, hbound]
    · obtain ⟨u', hu', rfl⟩ := Option.map_eq_some_iff.1 hw
      rw [Ty.interpret_substitute, after_single hbound]
      exact h w u' hu'

/-- A binding to a type without bound variables keeps a substitution idempotent. -/
theorem Idempotent.bind (h : s.Idempotent) (ht : ∀ w ∈ t.occurrences, s.find? w = none)
    (hvt : v ∉ t.occurrences) : (s.bind v t).Idempotent := by
  have hnone : ∀ w ∈ t.occurrences, (s.bind v t).find? w = none := fun w hw => by
    have hne : w ≠ v := fun e => hvt (e ▸ hw)
    simp [find?_bind, hne, ht w hw]
  intro x u hx w hw
  rw [find?_bind] at hx
  split at hx
  · cases hx
    exact hnone w hw
  · obtain ⟨u', hu', rfl⟩ := Option.map_eq_some_iff.1 hx
    rcases Ty.mem_occurrences_single u' hw with ⟨hw, hne⟩ | hw
    · simp [find?_bind, hne, h x u' hu' w hw]
    · exact hnone w hw

/-- The equations that are left when a variable is replaced hold no variable that is bound then. -/
theorem Apart.bind {pending : List Constraint} (h : s.Apart pending)
    (ht : ∀ w ∈ t.occurrences, s.find? w = none) (hvt : v ∉ t.occurrences) :
    (s.bind v t).Apart (replaceIn v t pending) := by
  have hnone : ∀ u : Ty, (∀ w ∈ u.occurrences, s.find? w = none) →
      ∀ w ∈ (u.substitute (Ty.single v t)).occurrences, (s.bind v t).find? w = none := by
    intro u hu w hw
    have hold : s.find? w = none ∧ w ≠ v := by
      rcases Ty.mem_occurrences_single u hw with ⟨hw, hne⟩ | hw
      · exact ⟨hu w hw, hne⟩
      · exact ⟨ht w hw, fun e => hvt (e ▸ hw)⟩
    simp [find?_bind, hold.1, hold.2]
  intro w hw
  obtain ⟨_, hmem, hw⟩ := List.mem_flatMap.1 hw
  obtain ⟨c, hc, rfl⟩ := List.mem_map.1 hmem
  have hside : ∀ x ∈ c.occurrences, s.find? x = none := fun x hx =>
    h x (List.mem_flatMap.2 ⟨c, hc, hx⟩)
  rcases List.mem_append.1 hw with hw | hw
  · exact hnone c.left (fun x hx => hside x (List.mem_append_left _ hx)) w hw
  · exact hnone c.right (fun x hx => hside x (List.mem_append_right _ hx)) w hw

end Bind

/-! ## 4. Equations that are taken apart -/

section Apart

variable {s : Substitution} {position : Position} {pending : List Constraint}

theorem Apart.tail {c : Constraint} (h : s.Apart (c :: pending)) : s.Apart pending := fun v hv =>
  h v (List.mem_append_right _ hv)

theorem Apart.left {t u : Ty} (h : s.Apart (⟨t, u, position⟩ :: pending)) :
    ∀ v ∈ t.occurrences, s.find? v = none := fun v hv =>
  h v (List.mem_append_left _ (List.mem_append_left _ hv))

theorem Apart.right {t u : Ty} (h : s.Apart (⟨t, u, position⟩ :: pending)) :
    ∀ v ∈ u.occurrences, s.find? v = none := fun v hv =>
  h v (List.mem_append_left _ (List.mem_append_right _ hv))

/-- The parts of two functions hold the variables of the functions. -/
theorem Apart.function {p q p' q' : Ty}
    (h : s.Apart (⟨.function p q, .function p' q', position⟩ :: pending)) :
    s.Apart (⟨p, p', position⟩ :: ⟨q, q', position⟩ :: pending) := by
  intro v hv
  refine h v ?_
  simp only [List.flatMap_cons, Constraint.occurrences, Ty.occurrences, List.mem_append] at hv ⊢
  grind

/-- The elements of two tuples hold the variables of the tuples. -/
theorem Apart.tuple {ts us : List Ty} (h : s.Apart (⟨.tuple ts, .tuple us, position⟩ :: pending)) :
    s.Apart (pairwise position ts us ++ pending) := by
  intro v hv
  refine h v ?_
  rw [List.flatMap_append, List.mem_append] at hv
  rw [List.flatMap_cons, List.mem_append]
  refine hv.imp (fun hpair => ?_) id
  simpa [Constraint.occurrences, Ty.occurrences] using occurrences_pairwise hpair

end Apart

end Substitution

/-! ## 5. Solving -/

open Substitution

/-- An equation that holds as it stands is dropped. -/
theorem unifyFrom_trivial (s : Substitution) (t : Ty) (position : Position)
    (cs : List Constraint) : unifyFrom s (⟨t, t, position⟩ :: cs) = unifyFrom s cs := by
  rw [unifyFrom.eq_def]
  exact if_pos rfl

/-- What a run of `unifyFrom` gives: an idempotent substitution that agrees with the valuations that
    `s` agrees with and that solve the equations; or an error, when there are none of these. -/
def UnifiesFrom (s : Substitution) (cs : List Constraint) :
    Except CompileError Substitution → Prop
  | .ok s' => s'.Idempotent ∧ ∀ θ, s'.AgreesWith θ ↔ s.AgreesWith θ ∧ Solves θ cs
  | .error _ => ∀ θ, s.AgreesWith θ → ¬ Solves θ cs

/-- Equations with the same solutions can stand for each other. -/
theorem UnifiesFrom.congr {s : Substitution} {cs ds : List Constraint}
    {r : Except CompileError Substitution} (h : UnifiesFrom s ds r)
    (heq : ∀ θ, Solves θ cs ↔ Solves θ ds) : UnifiesFrom s cs r := by
  cases r with
  | ok s' => exact ⟨h.1, fun θ => (h.2 θ).trans (and_congr_right fun _ => (heq θ).symm)⟩
  | error e => exact fun θ hs hcs => h θ hs ((heq θ).1 hcs)

/-- Binding a variable stands for the equation between the variable and its type. -/
theorem UnifiesFrom.of_bind {s : Substitution} {v : TypeVar} {t : Ty} {pending cs : List Constraint}
    {r : Except CompileError Substitution} (hv : s.find? v = none)
    (h : UnifiesFrom (s.bind v t) (replaceIn v t pending) r)
    (heq : ∀ θ, Solves θ cs ↔ θ v = t.interpret θ ∧ Solves θ pending) : UnifiesFrom s cs r := by
  have hreplace : ∀ θ, θ v = t.interpret θ →
      (Solves θ (replaceIn v t pending) ↔ Solves θ pending) := fun θ hθ => by
    rw [replaceIn, solves_map_substitute, after_single hθ]
  cases r with
  | ok s' =>
    refine ⟨h.1, fun θ => (h.2 θ).trans ?_⟩
    rw [agreesWith_bind hv, heq θ, and_assoc]
    exact and_congr_right fun _ => and_congr_right (hreplace θ)
  | error e =>
    intro θ hs hcs
    obtain ⟨hbound, hpending⟩ := (heq θ).1 hcs
    exact h θ ((agreesWith_bind hv).2 ⟨hs, hbound⟩) ((hreplace θ hbound).2 hpending)

/-- No valuation makes a variable stand for a larger type with this variable. -/
theorem not_holds_of_occurs {v : TypeVar} {t : Ty} (h : t.occurs v = true) (hne : t ≠ .var v)
    (θ : TypeVar → SimpleType) : θ v ≠ t.interpret θ :=
  Ty.interpret_ne_of_occurs (Ty.occurs_iff.1 h) hne

/-- **Unification is correct**: a run gives a substitution that says what the equations say, or
    there is no solution. -/
theorem unifyFrom_spec {s : Substitution} {cs : List Constraint} (hs : s.Idempotent)
    (hcs : s.Apart cs) : UnifiesFrom s cs (unifyFrom s cs) := by
  fun_induction unifyFrom s cs with
  -- no equation is left
  | case1 s => exact ⟨hs, fun θ => (and_iff_left (solves_nil θ)).symm⟩
  -- a type is equal to itself
  | case2 s t position pending ih =>
    refine (ih hs hcs.tail).congr fun θ => ?_
    simp [Constraint.Holds]
  -- functions, and tuples of one length, are taken apart
  | case3 s position pending p q p' q' hne ih =>
    refine (ih hs hcs.function).congr fun θ => ?_
    simp [Constraint.Holds, Ty.interpret, and_assoc]
  | case4 s position pending ts us hlength hne ih =>
    refine (ih hs hcs.tuple).congr fun θ => ?_
    simp [Constraint.Holds, Ty.interpret, solves_pairwise hlength]
  -- tuples of different lengths
  | case5 s position pending ts us hlength hne =>
    intro θ _ h
    have heq := (solves_cons.1 h).1
    simp only [Constraint.Holds, Ty.interpret, SimpleType.tuple.injEq] at heq
    have := congrArg List.length heq
    rw [Ty.interpretAll_eq_map, Ty.interpretAll_eq_map, List.length_map, List.length_map] at this
    exact hlength this
  -- a variable on the left: it occurs in the other side, or is bound to it
  | case6 s position pending v t hoccurs hne =>
    intro θ _ h
    exact not_holds_of_occurs hoccurs (fun e => hne e.symm) θ (solves_cons.1 h).1
  | case7 s position pending v t hoccurs hne ih =>
    have hvt : v ∉ t.occurrences := fun h => hoccurs (Ty.occurs_iff.2 h)
    have hv : s.find? v = none := hcs.left v (.head _)
    exact (ih (hs.bind hcs.right hvt) (hcs.tail.bind hcs.right hvt)).of_bind hv fun θ => solves_cons
  -- a variable on the right
  | case8 s position pending t v hnotvar hoccurs hne =>
    intro θ _ h
    exact not_holds_of_occurs hoccurs hne θ (solves_cons.1 h).1.symm
  | case9 s position pending t v hnotvar hoccurs hne ih =>
    have hvt : v ∉ t.occurrences := fun h => hoccurs (Ty.occurs_iff.2 h)
    have hv : s.find? v = none := hcs.right v (.head _)
    refine (ih (hs.bind hcs.left hvt) (hcs.tail.bind hcs.left hvt)).of_bind hv fun θ => ?_
    rw [solves_cons]
    exact and_congr_left fun _ => eq_comm
  -- types of different forms
  | case10 s position pending t u hfunction htuple hleft hright hne =>
    intro θ _ h
    have heq : t.interpret θ = u.interpret θ := (solves_cons.1 h).1
    cases t with
    | var v => exact hleft v rfl
    | base b => cases u <;> simp_all [Ty.interpret]
    | data d => cases u <;> simp_all [Ty.interpret]
    | function p q =>
      cases u with
      | function p' q' => exact hfunction p q p' q' rfl rfl
      | var v => exact hright v rfl
      | _ => cases heq
    | tuple ts =>
      cases u with
      | tuple us => exact htuple ts us rfl rfl
      | var v => exact hright v rfl
      | _ => cases heq

/-! ## 6. Solutions of whole lists -/

/-- What `solve` gives is idempotent, and says exactly what the equations say. -/
theorem solve_ok {cs : List Constraint} {s : Substitution} (h : solve cs = .ok s) :
    s.Idempotent ∧ ∀ θ, s.AgreesWith θ ↔ Solves θ cs := by
  have hspec := unifyFrom_spec idempotent_empty (apart_empty cs)
  rw [show unifyFrom .empty cs = .ok s from h] at hspec
  exact ⟨hspec.1, fun θ => (hspec.2 θ).trans (and_iff_right (agreesWith_empty θ))⟩

/-- **Equations that have a solution are solved.** -/
theorem solve_of_solves {cs : List Constraint} {θ : TypeVar → SimpleType} (h : Solves θ cs) :
    ∃ s, solve cs = .ok s := by
  have hspec := unifyFrom_spec idempotent_empty (apart_empty cs)
  cases hsolve : solve cs with
  | ok s => exact ⟨s, rfl⟩
  | error e =>
    rw [show unifyFrom .empty cs = .error e from hsolve] at hspec
    exact absurd h (hspec θ (agreesWith_empty θ))

/-- **What is solved has a solution**: any valuation behind the substitution. -/
theorem solves_of_solve {cs : List Constraint} {s : Substitution} (h : solve cs = .ok s)
    (θ : TypeVar → SimpleType) : Solves (Ty.after θ s.find?) cs :=
  ((solve_ok h).2 _).1 (agreesWith_after (solve_ok h).1 θ)

/-- What further equations make of an idempotent substitution says what both say. -/
theorem extend_ok {s s' : Substitution} {cs : List Constraint} (hs : s.Idempotent)
    (h : s.extend cs = .ok s') :
    s'.Idempotent ∧ ∀ θ, s'.AgreesWith θ ↔ s.AgreesWith θ ∧ Solves θ cs := by
  have hspec := unifyFrom_spec hs (apart_applyConstraint hs cs)
  rw [show unifyFrom s (cs.map s.applyConstraint) = .ok s' from h] at hspec
  refine ⟨hspec.1, fun θ => (hspec.2 θ).trans (and_congr_right fun hθ => ?_)⟩
  rw [show cs.map s.applyConstraint = cs.map (Constraint.substitute s.find?) from rfl,
    solves_map_substitute, hθ.after]

end ClosureML
