import ClosureML.Proofs.TwoRuns
import ClosureML.Proofs.Types.Generalization
import ClosureML.Proofs.Types.IncrementalSolving
import ClosureML.Proofs.Types.MostGeneralUnifier
import Mathlib.Data.List.Forall2

/-!
# Schemas that carry all equations

A schema carries those equations of a value that hold a quantified variable. It could as well carry
all of them: what is left out holds variables of the environment only, so that every copy of it is
the equation itself, which is among the equations already. A copy adds nothing then, wherever it
stands: equations that were solved hold under the solution.

Inference is run side by side, with schemas of either sort. The second run adds repetitions, in
uses of names, in schemas made of such uses, and between projections, which look at all equations
collected by then; and everything else is the same.

* `generalizeWhole`: names are generalised, and schemas carry all equations;
* `Repeats`: a list of equations with repetitions of known or of earlier ones between them;
* `Binding.Alike`, `EnvironmentAlike`: bindings and environments of the two runs;
* `RunsAlike`: from states that differ by repetitions, two passes do the same, up to repetitions.

Main statements: `Repeats.solve_eq`, `EnvironmentAlike.generalize`, `Node.infer_alike` and
`Node.inferTypes_whole`.
-/

namespace ClosureML

open ClosureML.Types

/-! ## 1. Schemas with all equations -/

/-- The variables of a type and of equations that are not fixed. -/
def quantifiedBy (fixed : VarSet) (type : Ty) (constraints : List Constraint) : VarSet :=
  (VarSet.ofList (type.occurrences ++ constraints.flatMap Constraint.occurrences)).diff fixed

/-- Names are generalised as `generalize` does, but a schema carries all equations that the value
    adds. -/
def generalizeWhole : Generalizer := fun environment _ since type =>
  let quantified := quantifiedBy (environmentVariables environment) type since
  if quantified.isEmpty then .mono type else .poly ⟨quantified, type, since⟩

/-- Does the equation hold one of the variables? -/
def Constraint.mentions (vs : VarSet) (c : Constraint) : Bool :=
  c.occurrences.any fun v => vs.contains v

/-- Are all variables of the equation fixed? -/
def Constraint.isFixed (fixed : VarSet) (c : Constraint) : Bool :=
  c.occurrences.all fun v => fixed.contains v

theorem generalize_eq (Γ : TypeEnvironment) (earlier since : List Constraint) (t : Ty) :
    generalize Γ earlier since t =
      if (quantifiedBy (environmentVariables Γ) t since).isEmpty then .mono t
      else .poly ⟨quantifiedBy (environmentVariables Γ) t since, t,
        since.filter (Constraint.mentions (quantifiedBy (environmentVariables Γ) t since))⟩ := rfl

theorem mem_quantifiedBy {fixed : VarSet} {t : Ty} {cs : List Constraint} {v : TypeVar} :
    v ∈ quantifiedBy fixed t cs ↔
      (v ∈ t.occurrences ∨ v ∈ cs.flatMap Constraint.occurrences) ∧ v ∉ fixed := by
  rw [quantifiedBy, VarSet.mem_diff, VarSet.mem_ofList, List.mem_append]

theorem VarSet.Ascending.ext {vs ws : VarSet} (hvs : vs.Ascending) (hws : ws.Ascending)
    (h : ∀ v, v ∈ vs ↔ v ∈ ws) : vs = ws := by
  have hperm : vs.Perm ws := (List.perm_ext_iff_of_nodup hvs.nodup hws.nodup).2 h
  refine hperm.eq_of_pairwise (fun v w _ _ hvw hwv => ?_) hvs hws
  exact absurd hwv (Nat.lt_asymm hvw)

theorem ascending_quantifiedBy (fixed : VarSet) (t : Ty) (cs : List Constraint) :
    (quantifiedBy fixed t cs).Ascending := List.Pairwise.filter _ (VarSet.ascending_ofList _)

/-- What is not mentioned among the quantified variables is fixed. -/
theorem isFixed_of_not_mentions {fixed : VarSet} {t : Ty} {cs : List Constraint} {c : Constraint}
    (hc : c ∈ cs) (h : c.mentions (quantifiedBy fixed t cs) = false) : c.isFixed fixed = true := by
  refine List.all_eq_true.2 fun v hv => List.contains_iff_mem.2 ?_
  by_contra hfixed
  have hquantified : v ∈ quantifiedBy fixed t cs :=
    mem_quantifiedBy.2 ⟨.inr (List.mem_flatMap.2 ⟨c, hc, hv⟩), hfixed⟩
  have hmentions : c.mentions (quantifiedBy fixed t cs) = true :=
    List.any_eq_true.2 ⟨v, hv, List.contains_iff_mem.2 hquantified⟩
  rw [h] at hmentions
  cases hmentions

/-! ## 2. Equations with repetitions -/

/-- The second list is the first with repetitions between its equations, of those that are known and
    of those that stand before. -/
inductive Repeats : List Constraint → List Constraint → List Constraint → Prop where
  | nil {K : List Constraint} : Repeats K [] []
  | both {K Δ Δ' : List Constraint} {c : Constraint} (h : Repeats (c :: K) Δ Δ') :
      Repeats K (c :: Δ) (c :: Δ')
  | again {K Δ Δ' : List Constraint} {c : Constraint} (hc : c ∈ K) (h : Repeats K Δ Δ') :
      Repeats K Δ (c :: Δ')

namespace Repeats

variable {K M Δ Δ' E E' : List Constraint}

theorem mono (h : Repeats K Δ Δ') (hKM : ∀ c ∈ K, c ∈ M) : Repeats M Δ Δ' := by
  induction h generalizing M with
  | nil => exact .nil
  | both _ ih => exact .both (ih (List.cons_subset_cons _ hKM))
  | again hc _ ih => exact .again (hKM _ hc) (ih hKM)

theorem refl (K : List Constraint) : ∀ Δ : List Constraint, Repeats K Δ Δ
  | [] => .nil
  | _ :: Δ => .both (refl _ Δ)

/-- **One list behind the other**: what stands in the first is known in the second. -/
theorem append (h : Repeats K Δ Δ') (h' : Repeats (K ++ Δ) E E') :
    Repeats K (Δ ++ E) (Δ' ++ E') := by
  induction h with
  | nil => rwa [List.append_nil] at h'
  | both _ ih => exact .both (ih (h'.mono fun c hc => by simpa [or_left_comm] using hc))
  | again hc _ ih => exact .again hc (ih h')

theorem subset (h : Repeats K Δ Δ') : ∀ c ∈ Δ, c ∈ Δ' := by
  induction h with
  | nil => exact fun _ => id
  | both _ ih => exact List.cons_subset_cons _ ih
  | again _ _ ih => exact fun c hc => List.mem_cons_of_mem _ (ih c hc)

/-- What is repeated is known, or stands in the list already. -/
theorem mem (h : Repeats K Δ Δ') : ∀ c ∈ Δ', c ∈ Δ ∨ c ∈ K := by
  induction h with
  | nil => exact fun _ => .inl
  | both _ ih =>
    intro c hc
    rcases List.mem_cons.1 hc with rfl | hc
    · exact .inl List.mem_cons_self
    · rcases ih c hc with hc | hc
      · exact .inl (List.mem_cons_of_mem _ hc)
      · rcases List.mem_cons.1 hc with rfl | hc
        · exact .inl List.mem_cons_self
        · exact .inr hc
  | again hknown _ ih =>
    intro c hc
    rcases List.mem_cons.1 hc with rfl | hc
    · exact .inr hknown
    · exact ih c hc

/-- **Copies of some equations and of all.** When the equations that are left out, and the known
    ones, are copied to what is known behind, copying all of them adds repetitions only. -/
theorem filter_map {f : Constraint → Constraint} {keep : Constraint → Bool} (h : Repeats K Δ Δ')
    (hK : ∀ c ∈ K, f c ∈ M) (hΔ : ∀ c ∈ Δ, keep c = false → f c ∈ M) :
    Repeats M ((Δ.filter keep).map f) (Δ'.map f) := by
  induction h generalizing M with
  | nil => exact .nil
  | @both K Δ Δ' c _ ih =>
    obtain ⟨hc, hΔ⟩ := List.forall_mem_cons.1 hΔ
    rw [List.filter_cons, List.map_cons]
    cases hkeep : keep c with
    | true =>
      refine .both (ih (List.forall_mem_cons.2 ⟨List.mem_cons_self, fun d hd => ?_⟩)
        fun d hd hk => ?_)
      · exact List.mem_cons_of_mem _ (hK d hd)
      · exact List.mem_cons_of_mem _ (hΔ d hd hk)
    | false => exact .again (hc hkeep) (ih (List.forall_mem_cons.2 ⟨hc hkeep, hK⟩) hΔ)
  | again hc _ ih => exact .again (hK _ hc) (ih hK hΔ)

end Repeats

/-- An equation that was solved holds under the solution, and solving it once more changes
    nothing. -/
theorem extend_solved {L : List Constraint} {s : Substitution} (h : solve L = .ok s)
    {c : Constraint} (hc : c ∈ L) : s.extend [c] = .ok s := by
  have holds : c.left.substitute s.find? = c.right.substitute s.find? :=
    (isMostGeneral_of_solve h).unifies c hc
  rw [Substitution.extend, List.map_singleton, Substitution.applyConstraint, Constraint.substitute,
    holds, unifyFrom_trivial, unifyFrom]

/-- A known equation once more changes no solution and no error. -/
theorem solve_again {L : List Constraint} {c : Constraint} (hc : c ∈ L) :
    solve (L ++ [c]) = solve L := by
  rw [solve_append]
  cases h : solve L with
  | ok s => exact extend_solved h hc
  | error e => rfl

/-- **Repetitions change no solution** and no error. -/
theorem Repeats.solve_eq {K L L' Δ Δ' : List Constraint} (h : Repeats K Δ Δ') (hK : ∀ c ∈ K, c ∈ L)
    (heq : solve L = solve L') : solve (L ++ Δ) = solve (L' ++ Δ') := by
  induction h generalizing L L' with
  | nil => rwa [List.append_nil, List.append_nil]
  | @both K Δ Δ' c _ ih =>
    rw [List.append_cons L, List.append_cons L']
    refine ih (List.forall_mem_cons.2 ⟨by simp, fun d hd => List.mem_append_left _ (hK d hd)⟩) ?_
    rw [solve_append, solve_append, heq]
  | @again K Δ Δ' c hc _ ih =>
    rw [List.append_cons L']
    refine ih hK ?_
    -- the repeated equation is solved in the first list, and so in the second
    rw [solve_append, ← heq, ← solve_append, solve_again (hK c hc)]

/-! ## 3. Bindings and environments of the two runs -/

/-- The substitution leaves the variables alone that are not in the set. -/
def Supported (σ : TypeVar → Option Ty) (vs : VarSet) : Prop := ∀ v, v ∉ vs → σ v = none

/-- Bindings to the same type, or to schemas whose copies differ by repetitions. -/
inductive Binding.Alike (K : List Constraint) : Binding → Binding → Prop where
  | mono {t : Ty} : Alike K (.mono t) (.mono t)
  | poly {quantified : VarSet} {t : Ty} {cs cs' : List Constraint}
      (copies : ∀ σ, Supported σ quantified →
        Repeats K (cs.map (Constraint.substitute σ)) (cs'.map (Constraint.substitute σ))) :
      Alike K (.poly ⟨quantified, t, cs⟩) (.poly ⟨quantified, t, cs'⟩)

theorem Binding.Alike.refl (K : List Constraint) : ∀ b : Binding, b.Alike K b
  | .mono _ => .mono
  | .poly ⟨_, _, _⟩ => .poly fun _ _ => .refl _ _

theorem Binding.Alike.of_known {K M : List Constraint} {b b' : Binding} (h : b.Alike K b')
    (hKM : ∀ c ∈ K, c ∈ M) : b.Alike M b' := by
  cases h with
  | mono => exact .mono
  | poly copies => exact .poly fun σ hσ => (copies σ hσ).mono hKM

namespace Types

/-- Environments that bind the same names alike and hold the same variables, among them those of all
    known equations. -/
structure EnvironmentAlike (K : List Constraint) (Γ Γ' : TypeEnvironment) : Prop where
  entries : List.Forall₂ (Beside Eq (Binding.Alike K)) Γ.toList Γ'.toList
  held : ∀ v, v ∈ environmentVariables Γ ↔ v ∈ environmentVariables Γ'
  known : ∀ c ∈ K, c.isFixed (environmentVariables Γ) = true

/-- Bindings alike that hold the same variables, but for those that the environment holds. -/
structure BoundAlike (K : List Constraint) (Γ : TypeEnvironment) (b b' : Binding) : Prop where
  alike : b.Alike K b'
  held : ∀ v, v ∉ environmentVariables Γ → (v ∈ b.freeVariables ↔ v ∈ b'.freeVariables)

theorem BoundAlike.refl (K : List Constraint) (Γ : TypeEnvironment) (b : Binding) :
    BoundAlike K Γ b b := ⟨.refl K b, fun _ _ => .rfl⟩

theorem mem_environmentVariables_extendAll {Γ : TypeEnvironment} {bs : List (String × Binding)}
    {v : TypeVar} : v ∈ environmentVariables (Γ.extendAll bs) ↔
      (∃ entry ∈ bs, v ∈ entry.2.freeVariables) ∨ v ∈ environmentVariables Γ := by
  simp only [mem_environmentVariables, Scope.toList_extendAll, List.mem_append, List.mem_reverse,
    or_and_right, exists_or]

namespace EnvironmentAlike

variable {K M : List Constraint} {Γ Γ' : TypeEnvironment} {bs bs' : List (String × Binding)}

theorem empty : EnvironmentAlike [] .empty .empty := ⟨.nil, fun _ => .rfl, nofun⟩

/-- More equations are known, whose variables the environment holds. -/
theorem of_known (h : EnvironmentAlike K Γ Γ') (hKM : ∀ c ∈ K, c ∈ M)
    (hM : ∀ c ∈ M, c.isFixed (environmentVariables Γ) = true) : EnvironmentAlike M Γ Γ' :=
  ⟨h.entries.imp fun _ _ hentry => ⟨hentry.1, hentry.2.of_known hKM⟩, h.held, hM⟩

/-- **More names are bound**, alike. -/
theorem extendAll (h : EnvironmentAlike K Γ Γ')
    (hbs : List.Forall₂ (Beside Eq (BoundAlike K Γ)) bs bs') :
    EnvironmentAlike K (Γ.extendAll bs) (Γ'.extendAll bs') := by
  have hnew : ∀ v, v ∉ environmentVariables Γ → ((∃ entry ∈ bs, v ∈ entry.2.freeVariables) ↔
      ∃ entry ∈ bs', v ∈ entry.2.freeVariables) := by
    intro v hv
    clear h
    induction hbs with
    | nil => exact .rfl
    | @cons entry entry' _ _ hentry _ ih =>
      simp only [List.exists_mem_cons_iff, ih, hentry.2.held v hv]
  refine ⟨?_, fun v => ?_, fun c hc => ?_⟩
  · rw [Scope.toList_extendAll, Scope.toList_extendAll]
    exact List.rel_append (List.rel_reverse (hbs.imp fun _ _ hentry => ⟨hentry.1, hentry.2.alike⟩))
      h.entries
  · rw [mem_environmentVariables_extendAll, mem_environmentVariables_extendAll, ← h.held]
    by_cases hv : v ∈ environmentVariables Γ
    · simp only [hv, or_true]
    · rw [hnew v hv]
  · refine List.all_eq_true.2 fun v hv => List.contains_iff_mem.2 ?_
    have hold := List.contains_iff_mem.1 (List.all_eq_true.1 (h.known c hc) v hv)
    exact mem_environmentVariables_extendAll.2 (.inr hold)

theorem extend (h : EnvironmentAlike K Γ Γ') {x : String} {b b' : Binding}
    (hb : BoundAlike K Γ b b') : EnvironmentAlike K (Γ.extend (x, b)) (Γ'.extend (x, b')) := by
  have hbs : List.Forall₂ (Beside Eq (BoundAlike K Γ)) [(x, b)] [(x, b')] := .cons ⟨rfl, hb⟩ .nil
  exact h.extendAll hbs

/-- Names are bound to the same. -/
theorem extendAll_same (h : EnvironmentAlike K Γ Γ') (bs : List (String × Binding)) :
    EnvironmentAlike K (Γ.extendAll bs) (Γ'.extendAll bs) :=
  h.extendAll (List.forall₂_same.2 fun _ _ => ⟨rfl, .refl K Γ _⟩)

/-- **A name is bound alike.** -/
theorem lookup? (h : EnvironmentAlike K Γ Γ') (x : String) :
    Option.Rel (Binding.Alike K) (Types.lookup? Γ x) (Types.lookup? Γ' x) := by
  have hlists : ∀ {bs bs' : List (String × Binding)},
      List.Forall₂ (Beside Eq (Binding.Alike K)) bs bs' → Option.Rel (Binding.Alike K)
        (bs.findSome? fun entry => if entry.1 = x then some entry.2 else none)
        (bs'.findSome? fun entry => if entry.1 = x then some entry.2 else none) := by
    intro bs bs' hbs
    induction hbs with
    | nil => exact .none
    | @cons entry entry' _ _ hentry _ ih =>
      obtain ⟨y, b⟩ := entry
      obtain ⟨y', b'⟩ := entry'
      obtain ⟨rfl, hb⟩ := hentry
      simp only [List.findSome?_cons]
      by_cases hy : y = x
      · rw [if_pos hy, if_pos hy]
        exact .some hb
      · rw [if_neg hy, if_neg hy]
        exact ih
  exact hlists h.entries

end EnvironmentAlike

/-! ## 4. Generalising alike -/

theorem substitute_of_isFixed {σ : TypeVar → Option Ty} {vs fixed : VarSet} (hσ : Supported σ vs)
    (hvs : ∀ v ∈ vs, v ∉ fixed) {c : Constraint} (hc : c.isFixed fixed = true) :
    c.substitute σ = c := by
  have hnone : ∀ v ∈ c.occurrences, σ v = none := fun v hv => hσ v fun hquantified =>
    hvs v hquantified (List.contains_iff_mem.1 (List.all_eq_true.1 hc v hv))
  rw [Constraint.substitute,
    Ty.substitute_eq_self c.left fun v hv => hnone v (List.mem_append_left _ hv),
    Ty.substitute_eq_self c.right fun v hv => hnone v (List.mem_append_right _ hv)]

/-- What a schema does not quantify is fixed. -/
theorem not_mem_freeVariables {fixed : VarSet} {t : Ty} {since cs : List Constraint} {v : TypeVar}
    (hcs : ∀ c ∈ cs, c ∈ since) (hv : v ∉ fixed) :
    v ∉ (Binding.poly ⟨quantifiedBy fixed t since, t, cs⟩).freeVariables := by
  rw [Binding.freeVariables, mem_freeVariables_schema, not_and, not_not, mem_quantifiedBy]
  refine fun h => ⟨h.imp_right fun h => ?_, hv⟩
  obtain ⟨c, hc, hv⟩ := List.mem_flatMap.1 h
  exact List.mem_flatMap.2 ⟨c, hcs c hc, hv⟩

/-- Repetitions quantify no further variables. -/
theorem EnvironmentAlike.quantifiedBy_eq {K since since' : List Constraint} {Γ Γ' : TypeEnvironment}
    (h : EnvironmentAlike K Γ Γ') (hsince : Repeats K since since') (t : Ty) :
    quantifiedBy (environmentVariables Γ') t since' =
      quantifiedBy (environmentVariables Γ) t since := by
  refine (ascending_quantifiedBy _ _ _).ext (ascending_quantifiedBy _ _ _) fun v => ?_
  rw [mem_quantifiedBy, mem_quantifiedBy, ← h.held]
  refine and_congr_left fun hv => or_congr_right ⟨fun h' => ?_, fun h' => ?_⟩
  · obtain ⟨c, hc, hvc⟩ := List.mem_flatMap.1 h'
    rcases hsince.mem c hc with hc | hc
    · exact List.mem_flatMap.2 ⟨c, hc, hvc⟩
    · exact absurd (List.contains_iff_mem.1 (List.all_eq_true.1 (h.known c hc) v hvc)) hv
  · obtain ⟨c, hc, hvc⟩ := List.mem_flatMap.1 h'
    exact List.mem_flatMap.2 ⟨c, hsince.subset c hc, hvc⟩

/-- What is known behind a value that adds equations: those of them that hold fixed variables only
    as well. -/
def knownBehind (K : List Constraint) (Γ : TypeEnvironment) (since : List Constraint) :
    List Constraint := K ++ since.filter (Constraint.isFixed (environmentVariables Γ))

theorem mem_of_mem_knownBehind {K : List Constraint} {Γ : TypeEnvironment}
    {since : List Constraint} :
    ∀ c ∈ knownBehind K Γ since, c ∈ K ++ since := fun _ hc =>
  List.mem_append.2 ((List.mem_append.1 hc).imp_right fun hc => (List.mem_filter.1 hc).1)

/-- **Names are generalised alike**: once the equations of the value that hold fixed variables only
    are known, the copies of schemas of either sort differ by repetitions. -/
theorem EnvironmentAlike.generalize {K since since' : List Constraint} {Γ Γ' : TypeEnvironment}
    (h : EnvironmentAlike K Γ Γ') (hsince : Repeats K since since')
    (earlier earlier' : List Constraint) (t : Ty) :
    BoundAlike (knownBehind K Γ since) Γ
      (Types.generalize Γ earlier since t) (generalizeWhole Γ' earlier' since' t) := by
  have hq := h.quantifiedBy_eq hsince t
  rw [generalize_eq, generalizeWhole, hq]
  split
  · exact .refl _ _ _
  · have hfree : ∀ v ∈ quantifiedBy (environmentVariables Γ) t since, v ∉ environmentVariables Γ :=
      fun v hv => (mem_quantifiedBy.1 hv).2
    refine ⟨.poly fun σ hσ => hsince.filter_map (fun c hc => ?_) fun c hc hmentions => ?_,
      fun v hv => ?_⟩
    · rw [substitute_of_isFixed hσ hfree (h.known c hc)]
      exact List.mem_append_left _ hc
    · have hfixed := isFixed_of_not_mentions hc hmentions
      rw [substitute_of_isFixed hσ hfree hfixed]
      exact List.mem_append_right _ (List.mem_filter.2 ⟨hc, hfixed⟩)
    · refine iff_of_false (not_mem_freeVariables (fun c hc => (List.mem_filter.1 hc).1) hv) ?_
      rw [← hq]
      exact not_mem_freeVariables (fun _ => id) fun hv' => hv ((h.held v).2 hv')

/-! ## 5. Steps -/

/-- The states of two runs that made the same, but for repetitions, in which the known equations
    were collected. -/
structure Ready (K : List Constraint) (s s' : InferState) : Prop where
  nextVariable : s.nextVariable = s'.nextVariable
  signatures : s.signatures = s'.signatures
  known : ∀ c ∈ K, c ∈ s.constraints.toList
  solve_eq : solve s.constraints.toList = solve s'.constraints.toList
  upToDate : s.UpToDate
  upToDate' : s'.UpToDate

theorem ready_empty : Ready [] .empty .empty := ⟨rfl, rfl, nofun, rfl, .empty, .empty⟩

/-- Steps from `s` to `t` and from `s'` to `t'` add the same equations, but for repetitions. -/
structure Grown (K Δ Δ' : List Constraint) (s s' t t' : InferState) : Prop where
  constraints : t.constraints.toList = s.constraints.toList ++ Δ
  constraints' : t'.constraints.toList = s'.constraints.toList ++ Δ'
  repeats : Repeats K Δ Δ'
  nextVariable : t.nextVariable = t'.nextVariable
  signatures : t.signatures = t'.signatures
  upToDate : t.UpToDate
  upToDate' : t'.UpToDate

variable {K L Δ Δ' E E' : List Constraint} {s s' t t' u u' : InferState}

/-- Behind the steps, what they added is known as well. -/
theorem Grown.ready (h : Grown K Δ Δ' s s' t t') (hs : Ready K s s') : Ready (K ++ Δ) t t' := by
  refine ⟨h.nextVariable, h.signatures, fun c hc => ?_, ?_, h.upToDate, h.upToDate'⟩
  · rw [h.constraints]
    exact List.mem_append.2 ((List.mem_append.1 hc).imp_left (hs.known c))
  · rw [h.constraints, h.constraints']
    exact h.repeats.solve_eq hs.known hs.solve_eq

theorem Ready.of_known (h : Ready K s s') (hLK : ∀ c ∈ L, c ∈ K) : Ready L s s' :=
  { h with known := fun c hc => h.known c (hLK c hc) }

/-- **Steps in a row**: what the first added may be repeated by the second. -/
theorem Grown.trans (h : Grown K Δ Δ' s s' t t') (h' : Grown L E E' t t' u u')
    (hL : ∀ c ∈ L, c ∈ K ++ Δ) : Grown K (Δ ++ E) (Δ' ++ E') s s' u u' where
  constraints := by rw [h'.constraints, h.constraints, List.append_assoc]
  constraints' := by rw [h'.constraints', h.constraints', List.append_assoc]
  repeats := h.repeats.append (h'.repeats.mono hL)
  nextVariable := h'.nextVariable
  signatures := h'.signatures
  upToDate := h'.upToDate
  upToDate' := h'.upToDate'

theorem Ready.grown (h : Ready K s s') : Grown K [] [] s s' s s' where
  constraints := (List.append_nil _).symm
  constraints' := (List.append_nil _).symm
  repeats := .nil
  nextVariable := h.nextVariable
  signatures := h.signatures
  upToDate := h.upToDate
  upToDate' := h.upToDate'

/-- From states in which the known equations were collected, both passes give something, the results
    are related, and they add the same equations but for repetitions; or both end with the same
    error. -/
def RunsAlike {α α' : Type} (K : List Constraint) (Q : α → α' → Prop) (x : Infer α)
    (x' : Infer α') : Prop :=
  ∀ s s', Ready K s s' →
    (∃ a a' Δ Δ' t t', Runs x s a t ∧ Runs x' s' a' t' ∧ Grown K Δ Δ' s s' t t' ∧ Q a a') ∨
      ∃ e, Fails x s e ∧ Fails x' s' e

namespace RunsAlike

variable {α α' β β' : Type} {Q : α → α' → Prop} {P : β → β' → Prop} {x : Infer α} {x' : Infer α'}
  {f : α → Infer β} {f' : α' → Infer β'}

theorem pure {a : α} {a' : α'} (h : Q a a') :
    RunsAlike K Q (pure a : Infer α) (pure a' : Infer α') := fun s s' hs =>
  .inl ⟨a, a', [], [], s, s', runs_pure.2 ⟨rfl, rfl⟩, runs_pure.2 ⟨rfl, rfl⟩, hs.grown, h⟩

theorem fail {cause : Cause} {position : Position} :
    RunsAlike K Q (fail cause position) (fail cause position) := fun _ _ _ =>
  .inr ⟨_, fails_throw.2 rfl, fails_throw.2 rfl⟩

/-- Both read the constructors that were declared. -/
theorem get : RunsAlike K (fun s s' => s.signatures = s'.signatures) get get := fun s s' hs =>
  .inl ⟨s, s', [], [], s, s', runs_get.2 ⟨rfl, rfl⟩, runs_get.2 ⟨rfl, rfl⟩, hs.grown, hs.signatures⟩

/-- A step that adds equations and leaves what was solved alone. -/
theorem modifyGet {g : InferState → α × InferState} {g' : InferState → α' × InferState}
    (hrepeats : Repeats K Δ Δ')
    (hadd : ∀ s, (g s).2.constraints.toList = s.constraints.toList ++ Δ ∧
      (g s).2.solvedUntil = s.solvedUntil ∧ (g s).2.solved = s.solved)
    (hadd' : ∀ s, (g' s).2.constraints.toList = s.constraints.toList ++ Δ' ∧
      (g' s).2.solvedUntil = s.solvedUntil ∧ (g' s).2.solved = s.solved)
    (h : ∀ s s' : InferState, s.nextVariable = s'.nextVariable → s.signatures = s'.signatures →
      (g s).2.nextVariable = (g' s').2.nextVariable ∧ (g s).2.signatures = (g' s').2.signatures ∧
        Q (g s).1 (g' s').1) :
    RunsAlike K Q (modifyGet g : Infer α) (modifyGet g' : Infer α') := by
  intro s s' hs
  obtain ⟨hnext, hsignatures, hQ⟩ := h s s' hs.nextVariable hs.signatures
  obtain ⟨hcs, huntil, hsolved⟩ := hadd s
  obtain ⟨hcs', huntil', hsolved'⟩ := hadd' s'
  refine .inl ⟨_, _, Δ, Δ', _, _, runs_modifyGet.2 ⟨rfl, rfl⟩, runs_modifyGet.2 ⟨rfl, rfl⟩,
    ⟨hcs, hcs', hrepeats, hnext, hsignatures, ?_, ?_⟩, hQ⟩
  · exact hs.upToDate.add (hcs ▸ List.prefix_append _ _) huntil hsolved
  · exact hs.upToDate'.add (hcs' ▸ List.prefix_append _ _) huntil' hsolved'

/-- **In a row**, the second steps may rely on the results of the first ones. -/
theorem bind (hx : RunsAlike K Q x x') (hf : ∀ a a', Q a a' → RunsAlike K P (f a) (f' a')) :
    RunsAlike K P (x >>= f) (x' >>= f') := by
  intro s s' hs
  obtain ⟨a, a', Δ, Δ', t, t', hrun, hrun', ht, ha⟩ | ⟨e, hfails, hfails'⟩ := hx s s' hs
  · have hready := (ht.ready hs).of_known fun c hc => List.mem_append_left Δ hc
    obtain ⟨b, b', E, E', u, u', hrun₂, hrun₂', hu, hb⟩ | ⟨e, hfails, hfails'⟩ :=
      hf a a' ha t t' hready
    · exact .inl ⟨b, b', Δ ++ E, Δ' ++ E', u, u', runs_bind.2 ⟨a, t, hrun, hrun₂⟩,
        runs_bind.2 ⟨a', t', hrun', hrun₂'⟩, ht.trans hu fun c hc => List.mem_append_left Δ hc, hb⟩
    · exact .inr ⟨e, hrun.fails_behind hfails, hrun'.fails_behind hfails'⟩
  · exact .inr ⟨e, hfails.bind, hfails'.bind⟩

/-- **The equations that a step adds** may be known behind it, when they are asked for. -/
theorem measured {f : α → List Constraint × List Constraint → Infer β}
    {f' : α' → List Constraint × List Constraint → Infer β'} (hx : RunsAlike K Q x x')
    (hf : ∀ a a' earlier earlier' since since', Q a a' → Repeats K since since' →
      ∃ L, (∀ c ∈ L, c ∈ K ++ since) ∧
        RunsAlike L P (f a (earlier, since)) (f' a' (earlier', since'))) :
    RunsAlike K P
      (constraintCount >>= fun start => x >>= fun a => constraintsAround start >>= f a)
      (constraintCount >>= fun start => x' >>= fun a => constraintsAround start >>= f' a) := by
  intro s s' hs
  have hcount : ∀ s, Runs constraintCount s s.constraints.size s := fun s =>
    runs_constraintCount.2 ⟨rfl, rfl⟩
  obtain ⟨a, a', Δ, Δ', t, t', hrun, hrun', ht, ha⟩ | ⟨e, hfails, hfails'⟩ := hx s s' hs
  · have haround : ∀ {s t : InferState} {Δ : List Constraint},
        t.constraints.toList = s.constraints.toList ++ Δ →
          Runs (constraintsAround s.constraints.size) t (s.constraints.toList, Δ) t := by
      intro s t Δ h
      refine runs_constraintsAround.2 ⟨?_, rfl⟩
      rw [h, ← Array.length_toList, List.splitAt_eq, List.take_left, List.drop_left]
    obtain ⟨L, hL, hbehind⟩ :=
      hf a a' s.constraints.toList s'.constraints.toList Δ Δ' ha ht.repeats
    obtain ⟨b, b', E, E', u, u', hrun₂, hrun₂', hu, hb⟩ | ⟨e, hfails, hfails'⟩ :=
      hbehind t t' ((ht.ready hs).of_known hL)
    · refine .inl ⟨b, b', Δ ++ E, Δ' ++ E', u, u', ?_, ?_, ht.trans hu hL, hb⟩
      · exact runs_bind.2 ⟨_, s, hcount s, runs_bind.2 ⟨a, t, hrun,
          runs_bind.2 ⟨_, t, haround ht.constraints, hrun₂⟩⟩⟩
      · exact runs_bind.2 ⟨_, s', hcount s', runs_bind.2 ⟨a', t', hrun',
          runs_bind.2 ⟨_, t', haround ht.constraints', hrun₂'⟩⟩⟩
    · refine .inr ⟨e, ?_, ?_⟩
      · exact (hcount s).fails_behind
          (hrun.fails_behind ((haround ht.constraints).fails_behind hfails))
      · exact (hcount s').fails_behind
          (hrun'.fails_behind ((haround ht.constraints').fails_behind hfails'))
  · exact .inr ⟨e, (hcount s).fails_behind hfails.bind, (hcount s').fails_behind hfails'.bind⟩

end RunsAlike

theorem fresh_alike : RunsAlike K Eq fresh fresh :=
  .modifyGet (.refl K []) (fun _ => ⟨(List.append_nil _).symm, rfl, rfl⟩)
    (fun _ => ⟨(List.append_nil _).symm, rfl, rfl⟩) fun _ _ hnext hsignatures =>
      ⟨congrArg (· + 1) hnext, hsignatures, by rw [hnext]⟩

theorem constrain_alike {t u : Ty} {position : Position} :
    RunsAlike K Eq (constrain t u position) (constrain t u position) := by
  unfold constrain
  dsimp only
  split
  · exact .pure rfl
  · exact .modifyGet (.refl K [⟨t, u, position⟩]) (fun _ => ⟨Array.toList_push, rfl, rfl⟩)
      (fun _ => ⟨Array.toList_push, rfl, rfl⟩) fun _ _ hnext hsignatures =>
        ⟨hnext, hsignatures, rfl⟩

theorem ascribedOrFresh_alike : ∀ {ascription : Option TypeExpr},
    RunsAlike K Eq (ascribedOrFresh ascription) (ascribedOrFresh ascription)
  | some _ => .pure rfl
  | none => fresh_alike

/-- The copies are for the quantified variables, one for each. -/
theorem freshCopies_alike : ∀ {vs : VarSet},
    RunsAlike K (fun copies copies' => copies = copies' ∧ copies.map Prod.fst = vs)
      (freshCopies vs) (freshCopies vs)
  | [] => .pure ⟨rfl, rfl⟩
  | v :: _ => .bind fresh_alike fun _ _ h => h ▸ .bind freshCopies_alike fun _ _ h =>
    h.1 ▸ .pure ⟨rfl, congrArg (List.cons v) h.2⟩

theorem supported_findIn : ∀ copies : List (TypeVar × Ty),
    Supported (fun v => Substitution.findIn v copies) (copies.map Prod.fst)
  | [], _, _ => rfl
  | (w, t) :: copies, v, hv => by
    obtain ⟨hne, hv⟩ := not_or.1 (mt List.mem_cons.2 hv)
    exact (if_neg hne).trans (supported_findIn copies v hv)

/-- **Schemas are copied alike**: what the copies add differs by repetitions. -/
theorem instantiate_alike {quantified : VarSet} {t : Ty} {cs cs' : List Constraint}
    (h : ∀ σ, Supported σ quantified →
      Repeats K (cs.map (Constraint.substitute σ)) (cs'.map (Constraint.substitute σ))) :
    RunsAlike K Eq (instantiate ⟨quantified, t, cs⟩) (instantiate ⟨quantified, t, cs'⟩) := by
  refine .bind freshCopies_alike ?_
  rintro copies _ ⟨rfl, rfl⟩
  refine .bind (Q := Eq) (.modifyGet (h _ (supported_findIn copies))
    (fun _ => ⟨Array.toList_appendList, rfl, rfl⟩) (fun _ => ⟨Array.toList_appendList, rfl, rfl⟩)
    fun _ _ hnext hsignatures => ⟨hnext, hsignatures, rfl⟩) fun _ _ _ => .pure rfl

/-- **Solving on the way** gives the same type, or the same error. -/
theorem resolveNow_alike {t : Ty} : RunsAlike K Eq (resolveNow t) (resolveNow t) := by
  intro s s' hs
  have hrun := hs.upToDate.resolveNow_run t
  have hrun' := hs.upToDate'.resolveNow_run t
  rw [← hs.solve_eq] at hrun'
  cases hsolve : solve s.constraints.toList with
  | ok σ =>
    rw [hsolve] at hrun hrun'
    refine .inl ⟨_, _, [], [], _, _, hrun, hrun', ?_, rfl⟩
    exact ⟨(List.append_nil _).symm, (List.append_nil _).symm, .nil, hs.nextVariable, hs.signatures,
      resolveNow_keeps.run hs.upToDate hrun, resolveNow_keeps.run hs.upToDate' hrun'⟩
  | error e =>
    rw [hsolve] at hrun hrun'
    exact .inr ⟨e, ⟨s, hrun⟩, ⟨s', hrun'⟩⟩

/-! ## 6. Declarations and patterns -/

theorem declareConstructors_alike {d : String} : ∀ {cs : List Node} {Γ Γ' : TypeEnvironment},
    EnvironmentAlike K Γ Γ' → RunsAlike K (Beside Eq (EnvironmentAlike K))
      (Types.declareConstructors d Γ cs) (Types.declareConstructors d Γ' cs)
  | [], _, _, hΓ => .pure ⟨rfl, hΓ⟩
  | n :: _, Γ, Γ', hΓ => by
    cases n with
    | dataConstructor m c parameters tag =>
      refine .bind (Q := Eq) (.modifyGet (.refl K [])
        (fun _ => ⟨(List.append_nil _).symm, rfl, rfl⟩)
        (fun _ => ⟨(List.append_nil _).symm, rfl, rfl⟩) fun _ _ hnext hsignatures =>
          ⟨hnext, congrArg (List.cons _) hsignatures, rfl⟩) fun _ _ _ => ?_
      refine .bind (declareConstructors_alike (hΓ.extendAll_same [_])) ?_
      rintro ⟨more, inner⟩ ⟨_, inner'⟩ ⟨rfl, hinner⟩
      exact .pure ⟨rfl, hinner⟩
    | _ => exact .fail

theorem declareGroup_alike {arms : List Node} :
    RunsAlike K Eq (declareGroup arms) (declareGroup arms) := by
  induction arms with
  | nil => exact .pure rfl
  | cons n arms ih =>
    cases n with
    | letRecArm =>
      refine .bind ascribedOrFresh_alike ?_
      rintro t _ rfl
      refine .bind ascribedOrFresh_alike ?_
      rintro u _ rfl
      refine .bind ih ?_
      rintro rest _ rfl
      exact .pure rfl
    | _ => exact .fail

mutual

theorem inferPattern_alike : ∀ n : Node, RunsAlike K Eq (inferPattern n) (inferPattern n)
  | .patternBinder .. => .bind fresh_alike fun _ _ h => h ▸ .pure rfl
  | .patternLiteral .. => .pure rfl
  | .patternTuple _ ps => .bind (inferPatterns_alike ps) fun _ _ h => h ▸ .pure rfl
  | .patternConstructor _ c ps _ => by
    refine .bind .get fun s s' hs => ?_
    rw [hs]
    cases s'.signatures.lookup c with
    | none => exact .fail
    | some signature =>
      dsimp only
      split
      · exact .fail
      · exact .bind (inferArguments_alike ps _) fun _ _ h => h ▸ .pure rfl
  | .top .. | .literal .. | .reference .. | .builtin .. | .lambda .. | .application ..
  | .letIn .. | .letRec .. | .letRecArm .. | .conditional .. | .binary .. | .unary ..
  | .sequence .. | .tuple .. | .projection .. | .dataType .. | .dataConstructor ..
  | .matchWith .. | .matchArm .. | .indexed .. => .fail

theorem inferPatterns_alike : ∀ ns : List Node, RunsAlike K Eq (inferPatterns ns) (inferPatterns ns)
  | [] => .pure rfl
  | n :: ns => by
    refine .bind (inferPattern_alike n) ?_
    rintro ⟨n, t, bindings⟩ _ rfl
    exact .bind (inferPatterns_alike ns) fun _ _ h => h ▸ .pure rfl

theorem inferArguments_alike : ∀ (ns : List Node) (ts : List Ty),
    RunsAlike K Eq (inferArguments ns ts) (inferArguments ns ts)
  | [], _ => .pure rfl
  | _ :: _, [] => .pure rfl
  | n :: ns, _ :: ts => by
    refine .bind (inferPattern_alike n) ?_
    rintro ⟨n, u, bindings⟩ _ rfl
    refine .bind constrain_alike fun _ _ _ => ?_
    exact .bind (inferArguments_alike ns ts) fun _ _ h => h ▸ .pure rfl

end

/-! ## 7. Trees -/

/-- The value of a `let`, whose type has to be the ascribed one. -/
def inferAscribed (g : Generalizer) (Γ : TypeEnvironment) (value : Node)
    (ascription : Option TypeExpr) (position : Position) : Infer (Node × Ty) := do
  let r ← value.infer g Γ
  match ascription with
  | none => return r
  | some a =>
    constrain r.2 a.toTy position
    return r

theorem infer_letIn (g : Generalizer) (Γ : TypeEnvironment) (m : Mark) (x : String)
    (a : Option TypeExpr) (value body : Node) :
    (Node.letIn m x a value body).infer g Γ =
      (constraintCount >>= fun start => inferAscribed g Γ value a m.position >>= fun r =>
        constraintsAround start >>= fun parts => do
          let (body, t) ← body.infer g (Γ.extend (x, g Γ parts.1 parts.2 r.2))
          return (.letIn (typed m t) x a r.1 body, t)) := by
  rw [Node.infer]
  cases a <;> simp only [inferAscribed, bind_assoc, pure_bind]

/-- What the functions of a group are bound to, behind their declaration. -/
theorem declared_alike {Γ : TypeEnvironment} {b b' : Ty → Ty → Binding}
    (declared : List (String × Ty × Ty)) (hb : ∀ t u, BoundAlike K Γ (b t u) (b' t u)) :
    List.Forall₂ (Beside Eq (BoundAlike K Γ))
      (declared.map fun (f, parameter, result) => (f, b parameter result))
      (declared.map fun (f, parameter, result) => (f, b' parameter result)) := by
  rw [List.forall₂_map_left_iff, List.forall₂_map_right_iff]
  exact List.forall₂_same.2 fun (_, t, u) _ => ⟨rfl, hb t u⟩

theorem EnvironmentAlike.behind {since : List Constraint} {Γ Γ' : TypeEnvironment}
    (h : EnvironmentAlike K Γ Γ') : EnvironmentAlike (knownBehind K Γ since) Γ Γ' :=
  h.of_known (fun _ => List.mem_append_left _) fun c hc => by
    rcases List.mem_append.1 hc with hc | hc
    · exact h.known c hc
    · exact (List.mem_filter.1 hc).2

end Types

mutual

/-- **Types are inferred alike**, whichever equations schemas carry. -/
theorem Node.infer_alike : ∀ (n : Node) {K : List Constraint} {Γ Γ' : TypeEnvironment},
    EnvironmentAlike K Γ Γ' →
      RunsAlike K Eq (n.infer generalize Γ) (n.infer generalizeWhole Γ')
  | .top _ e, _, _, _, hΓ => .bind (e.infer_alike hΓ) fun _ _ h => h ▸ .pure rfl
  | .literal .., _, _, _, _ => .pure rfl
  | .reference m x, _, Γ, Γ', hΓ => by
    unfold Node.infer
    have hlookup := hΓ.lookup? x
    generalize Types.lookup? Γ x = b at hlookup
    generalize Types.lookup? Γ' x = b' at hlookup
    cases hlookup with
    | none => exact .fail
    | some hb =>
      cases hb with
      | mono => exact .pure rfl
      | poly copies => exact .bind (instantiate_alike copies) fun _ _ h => h ▸ .pure rfl
  | .builtin _ b, _, _, _, _ => by
    refine .bind fresh_alike ?_
    rintro parameter _ rfl
    cases b with
    | println | print => exact .bind (Q := Eq) (.pure rfl) fun _ _ h => h ▸ .pure rfl
    | panic => exact .bind fresh_alike fun _ _ h => h ▸ .pure rfl
  | .lambda _ x _ body, _, _, _, hΓ => by
    refine .bind ascribedOrFresh_alike ?_
    rintro parameter _ rfl
    exact .bind (body.infer_alike (hΓ.extendAll_same [_])) fun _ _ h => h ▸ .pure rfl
  | .application _ f e, _, _, _, hΓ => by
    refine .bind (f.infer_alike hΓ) ?_
    rintro ⟨f, functionType⟩ _ rfl
    refine .bind (e.infer_alike hΓ) ?_
    rintro ⟨e, argumentType⟩ _ rfl
    refine .bind fresh_alike ?_
    rintro result _ rfl
    exact .bind constrain_alike fun _ _ _ => .pure rfl
  | .letIn m x a value body, K, Γ, Γ', hΓ => by
    rw [infer_letIn, infer_letIn]
    refine .measured (Q := Eq) ?_ ?_
    · refine .bind (value.infer_alike hΓ) ?_
      rintro r _ rfl
      cases a with
      | none => exact .pure rfl
      | some a => exact .bind constrain_alike fun _ _ _ => .pure rfl
    · rintro ⟨value, t⟩ _ earlier earlier' since since' rfl hsince
      -- behind the `let`, the equations of the value about fixed variables only are known
      refine ⟨knownBehind K Γ since, mem_of_mem_knownBehind, ?_⟩
      have hbound := hΓ.generalize hsince earlier earlier' t
      exact .bind (body.infer_alike (hΓ.behind.extend hbound)) fun _ _ h => h ▸ .pure rfl
  | .letRec m arms body, K, Γ, Γ', hΓ => by
    refine .bind declareGroup_alike ?_
    rintro declared _ rfl
    refine .measured (Node.inferGroup_alike arms (hΓ.extendAll_same _)) ?_
    rintro arms _ earlier earlier' since since' rfl hsince
    refine ⟨knownBehind K Γ since, mem_of_mem_knownBehind, ?_⟩
    have hbound := declared_alike declared fun t u =>
      hΓ.generalize hsince earlier earlier' (.function t u)
    exact .bind (body.infer_alike (hΓ.behind.extendAll hbound)) fun _ _ h => h ▸ .pure rfl
  | .conditional _ c a b, _, _, _, hΓ => by
    refine .bind (c.infer_alike hΓ) ?_
    rintro ⟨c, conditionType⟩ _ rfl
    refine .bind constrain_alike fun _ _ _ => ?_
    refine .bind (a.infer_alike hΓ) ?_
    rintro ⟨a, thenType⟩ _ rfl
    refine .bind (b.infer_alike hΓ) ?_
    rintro ⟨b, elseType⟩ _ rfl
    exact .bind constrain_alike fun _ _ _ => .pure rfl
  | .binary _ o l r, _, _, _, hΓ => by
    refine .bind (l.infer_alike hΓ) ?_
    rintro ⟨lhs, lhsType⟩ _ rfl
    refine .bind (r.infer_alike hΓ) ?_
    rintro ⟨rhs, rhsType⟩ _ rfl
    dsimp only
    cases o.operatorClass with
    | arithmetic | relational =>
      exact .bind constrain_alike fun _ _ _ => .bind constrain_alike fun _ _ _ => .pure rfl
    | equality => exact .bind constrain_alike fun _ _ _ => .pure rfl
  | .unary _ _ e, _, _, _, hΓ => by
    refine .bind (e.infer_alike hΓ) ?_
    rintro ⟨e, operandType⟩ _ rfl
    exact .bind constrain_alike fun _ _ _ => .pure rfl
  | .sequence _ es, _, _, _, hΓ => .bind (Node.inferAll_alike es hΓ) fun _ _ h => h ▸ .pure rfl
  | .tuple _ es, _, _, _, hΓ => .bind (Node.inferAll_alike es hΓ) fun _ _ h => h ▸ .pure rfl
  | .projection _ index _ e, _, _, _, hΓ => by
    refine .bind (e.infer_alike hΓ) ?_
    rintro ⟨target, targetType⟩ _ rfl
    refine .bind resolveNow_alike ?_
    rintro t _ rfl
    cases t with
    | tuple ts =>
      dsimp only
      cases ts[index]? with
      | some t => exact .pure rfl
      | none => exact .fail
    | _ => exact .fail
  | .dataType _ _ cs body, _, _, _, hΓ => by
    refine .bind (declareConstructors_alike hΓ) ?_
    rintro ⟨cs, inner⟩ ⟨_, inner'⟩ ⟨rfl, hinner⟩
    exact .bind (body.infer_alike hinner) fun _ _ h => h ▸ .pure rfl
  | .matchWith _ e arms, _, _, _, hΓ => by
    refine .bind (e.infer_alike hΓ) ?_
    rintro ⟨e, scrutineeType⟩ _ rfl
    refine .bind fresh_alike ?_
    rintro result _ rfl
    exact .bind (Node.inferArms_alike arms hΓ) fun _ _ h => h ▸ .pure rfl
  | .letRecArm .., _, _, _, _ | .matchArm .., _, _, _, _ | .dataConstructor .., _, _, _, _
  | .patternBinder .., _, _, _, _ | .patternTuple .., _, _, _, _ | .patternLiteral .., _, _, _, _
  | .patternConstructor .., _, _, _, _ | .indexed .., _, _, _, _ => .fail
termination_by structural n => n

theorem Node.inferAll_alike : ∀ (ns : List Node) {K : List Constraint} {Γ Γ' : TypeEnvironment},
    EnvironmentAlike K Γ Γ' →
      RunsAlike K Eq (Node.inferAll generalize Γ ns) (Node.inferAll generalizeWhole Γ' ns)
  | [], _, _, _, _ => .pure rfl
  | n :: ns, _, _, _, hΓ => by
    refine .bind (n.infer_alike hΓ) ?_
    rintro ⟨n, t⟩ _ rfl
    exact .bind (Node.inferAll_alike ns hΓ) fun _ _ h => h ▸ .pure rfl
termination_by structural ns => ns

theorem Node.inferGroup_alike : ∀ (ns : List Node) {types : List (Ty × Ty)} {K : List Constraint}
    {Γ Γ' : TypeEnvironment}, EnvironmentAlike K Γ Γ' →
      RunsAlike K Eq (Node.inferGroup generalize Γ ns types)
        (Node.inferGroup generalizeWhole Γ' ns types)
  | [], _, _, _, _, _ => .pure rfl
  | n :: _, [], _, _, _, _ => by
    cases n <;> exact .pure rfl
  | n :: ns, _ :: _, _, _, _, hΓ => by
    cases n with
    | letRecArm _ _ _ _ _ body =>
      refine .bind (body.infer_alike (hΓ.extendAll_same [_])) ?_
      rintro ⟨body, bodyType⟩ _ rfl
      refine .bind constrain_alike fun _ _ _ => ?_
      exact .bind (Node.inferGroup_alike ns hΓ) fun _ _ h => h ▸ .pure rfl
    | _ => exact .pure rfl
termination_by structural ns => ns

theorem Node.inferArms_alike : ∀ (ns : List Node) {t r : Ty} {K : List Constraint}
    {Γ Γ' : TypeEnvironment}, EnvironmentAlike K Γ Γ' →
      RunsAlike K Eq (Node.inferArms generalize Γ t r ns) (Node.inferArms generalizeWhole Γ' t r ns)
  | [], _, _, _, _, _, _ => .pure rfl
  | n :: ns, _, _, _, _, _, hΓ => by
    cases n with
    | matchArm m p body =>
      refine .bind (inferPattern_alike p) ?_
      rintro ⟨p, u, bindings⟩ _ rfl
      refine .bind constrain_alike fun _ _ _ => ?_
      refine .bind (body.infer_alike (hΓ.extendAll_same _)) ?_
      rintro ⟨body, bodyType⟩ _ rfl
      refine .bind constrain_alike fun _ _ _ => ?_
      exact .bind (Node.inferArms_alike ns hΓ) fun _ _ h => h ▸ .pure rfl
    | _ => exact .fail
termination_by structural ns => ns

end

/-! ## 8. Programs -/

/-- Both give the same typed tree and the same root type, and equations with the same solution or
    the same error; or both end with the same error. -/
inductive SameTyping : Except CompileError Typing → Except CompileError Typing → Prop where
  | ok {tree : Node} {type : Ty} {cs cs' : List Constraint} (h : solve cs = solve cs') :
      SameTyping (.ok ⟨tree, type, cs⟩) (.ok ⟨tree, type, cs'⟩)
  | error {e : CompileError} : SameTyping (.error e) (.error e)

/-- **Leaving equations out of schemas changes nothing.** Whether schemas carry all equations of
    their value, or only those that hold a quantified variable: inference gives the same tree and
    the same type, and the equations have the same solution or the same error; or it ends with the
    same error. -/
theorem Node.inferTypes_whole (n : Node) :
    SameTyping n.inferTypes (n.inferTypesBy generalizeWhole) := by
  unfold Node.inferTypes Node.inferTypesBy
  obtain ⟨⟨tree, type⟩, _, Δ, Δ', t, t', hrun, hrun', ht, rfl⟩ |
    ⟨e, ⟨t, hfails⟩, ⟨t', hfails'⟩⟩ :=
      n.infer_alike .empty .empty .empty ready_empty
  · simp only [Runs] at hrun hrun'
    rw [hrun, hrun']
    exact .ok (ht.ready ready_empty).solve_eq
  · rw [hfails, hfails']
    exact .error

/-- A function with a parameter that a function in it adds a number to. -/
def sharedParameter : Node :=
  let m : Mark := ⟨⟨1, 1⟩, none⟩
  .top m (.lambda m "x" none (.letIn m "f" none
    (.lambda m "y" none (.binary m .add (.reference m "x") (.literal m (.integer 1))))
    (.tuple m [.application m (.reference m "f") (.literal m (.integer 0)),
      .application m (.reference m "f") (.literal m (.boolean true))])))

-- each use of the inner function repeats that the parameter is an integer
example : sharedParameter.inferTypes.toOption.map (·.constraints.length) = some 3 ∧
    (sharedParameter.inferTypesBy generalizeWhole).toOption.map (·.constraints.length) =
      some 5 := by
  decide +kernel

end ClosureML
