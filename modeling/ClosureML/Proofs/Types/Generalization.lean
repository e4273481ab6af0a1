import ClosureML.Proofs.Types.InferenceInvariant

/-!
# Generalisation

A schema stands for a scheme when every valuation that keeps its equations, and differs at its
quantified variables only, makes its type an instance of the scheme. There is such a scheme when the
quantified variables are apart from everything that was fixed before: the environment, and the
equations collected by then.

* `generalizeApart` generalises in this way;
* `Fits`: a context gives the names of an environment what their bindings stand for.

Main statements: `exists_general` (among the solutions that agree on fixed variables there is one
that all the others are instances of) and `fits_generalizeOver`.
-/

namespace ClosureML

open ClosureML.Types

/-! ## 1. Generalising apart from what came before -/

/-- The variables of equations. -/
def Constraint.variables (cs : List Constraint) : VarSet :=
  VarSet.ofList (cs.flatMap Constraint.occurrences)

/-- The variables are quantified that neither the environment nor an equation collected before the
    value holds. -/
def generalizeApart : Generalizer := fun environment earlier since type =>
  generalizeOver ((environmentVariables environment).union (Constraint.variables earlier)) type
    since

/-! ## 2. The most general of several solutions -/

theorem exists_above (l : List Nat) : ∃ N, ∀ n ∈ l, n < N := by
  induction l with
  | nil => exact ⟨0, fun n h => nomatch h⟩
  | cons a l ih =>
    obtain ⟨N, hN⟩ := ih
    refine ⟨max N (a + 1), fun n h => ?_⟩
    rcases List.mem_cons.1 h with rfl | h
    · omega
    · have := hN n h
      omega

/-- There is a number above all the variables that a context holds. -/
theorem Context.exists_above_holds (Γ : Context) : ∃ N, ∀ n, Γ.Holds n → n < N := by
  obtain ⟨N, hN⟩ := exists_above (Γ.flatMap fun entry => entry.2.type.vars)
  refine ⟨N, fun n hn => hN n ?_⟩
  obtain ⟨entry, hentry, hn, -⟩ := hn
  exact List.mem_flatMap.2 ⟨entry, hentry, hn⟩

/-- There is a number above all the variables that a valuation uses, since its own variables are
    finitely many. -/
theorem exists_bound (θ : TypeVar → SimpleType) : ∃ N, ∀ w, ∀ n ∈ (θ w).vars, n < N := by
  have hbelow : ∀ k : Nat, ∃ N, ∀ w : TypeVar, w.toNat < k → ∀ n ∈ (θ w).vars, n < N := fun k => by
    induction k with
    | zero => exact ⟨0, fun w h => absurd h (Nat.not_lt_zero _)⟩
    | succ k ih =>
      obtain ⟨N, hN⟩ := ih
      obtain ⟨M, hM⟩ := exists_above (θ (.ofNat k)).vars
      refine ⟨max N M, fun w hw n hn => ?_⟩
      rcases Nat.lt_succ_iff_lt_or_eq.1 hw with hw | hw
      · have := hN w hw n hn
        omega
      · have : w = .ofNat k := by
          rw [← hw]
          exact (TypeVar.ofNat_toNat w).symm
        have := hM n (this ▸ hn)
        omega
  obtain ⟨N, hN⟩ := hbelow UInt32.size
  exact ⟨N, fun w => hN w w.toNat_lt⟩

open Classical in
/-- **The most general solution.** Among the solutions of equations that agree with a given one on
    fixed variables, there is one that every other is an instance of: variables that are not
    determined stand for type variables of their own, from the number `N` on. -/
theorem exists_general {θ : TypeVar → SimpleType} {cs : List Constraint} (hθ : Solves θ cs)
    (fixed : VarSet) (bound : Nat) :
    ∃ θ₁ N, bound ≤ N ∧ (∀ v ∈ fixed, θ₁ v = θ v) ∧ Solves θ₁ cs ∧
      ∀ θ', (∀ v ∈ fixed, θ' v = θ v) → Solves θ' cs → ∀ t : Ty,
        Scheme.Instance ⟨(t.interpret θ₁).vars.filter (N ≤ ·), t.interpret θ₁⟩
        (t.interpret θ') := by
  obtain ⟨s, hs⟩ := solve_of_solves hθ
  obtain ⟨hidempotent, hagrees⟩ := solve_ok hs
  obtain ⟨M, hM⟩ := exists_bound θ
  -- the variables that a fixed variable is tied to keep what they stand for
  let tied (w : TypeVar) : Prop := ∃ v ∈ fixed, w ∈ ((s.find? v).getD (.var v)).occurrences
  let N := max bound M
  let base (w : TypeVar) : SimpleType := if tied w then θ w else .var (N + w.toNat)
  have hself : ∀ {ξ : TypeVar → SimpleType}, Solves ξ cs → Ty.after ξ s.find? = ξ := fun hξ =>
    ((hagrees _).2 hξ).after
  refine ⟨Ty.after base s.find?, N, Nat.le_max_left _ _, fun v hv => ?_,
    (hagrees _).1 (Substitution.agreesWith_after hidempotent base), fun θ' hfixed hθ' t => ?_⟩
  · rw [← congrFun (hself hθ) v]
    exact Ty.interpret_congr _ fun w hw => if_pos ⟨v, hv, hw⟩
  · have htied : ∀ w, tied w → θ' w = θ w := by
      rintro w ⟨v, hv, hw⟩
      have hv' : Ty.after θ' s.find? v = Ty.after θ s.find? v := by
        rw [hself hθ', hself hθ, hfixed v hv]
      exact Ty.eq_of_interpret_eq _ hv' hw
    -- the new variables are replaced by what `θ'` gives for the variables that they stand for
    let ρ (n : Nat) : SimpleType := if N ≤ n then θ' (.ofNat (n - N)) else .var n
    have hbase : ∀ w, (base w).subst ρ = θ' w := by
      intro w
      by_cases hw : tied w
      · rw [show base w = θ w from if_pos hw, htied w hw]
        have hid : (θ w).subst ρ = (θ w).subst .var := by
          refine SimpleType.subst_congr (θ w) fun n hn => if_neg ?_
          have := hM w n hn
          omega
        rw [hid, SimpleType.subst_var]
      · rw [show base w = .var (N + w.toNat) from if_neg hw]
        simp [ρ, SimpleType.subst, TypeVar.ofNat_toNat]
    refine ⟨fun n => if n ∈ (t.interpret (Ty.after base s.find?)).vars.filter (N ≤ ·) then ρ n
      else .var n, fun n hn => if_neg hn, ?_⟩
    rw [@SimpleType.subst_congr _ ρ, Ty.subst_interpret]
    · refine Ty.interpret_congr t fun v _ => ?_
      rw [← congrFun (hself hθ') v, Ty.after, Ty.after, Ty.subst_interpret]
      exact Ty.interpret_congr _ fun w _ => (hbase w).symm
    · intro n hn
      by_cases hN : N ≤ n
      · rw [if_pos (List.mem_filter.2 ⟨hn, decide_eq_true hN⟩)]
      · have hnot : n ∉ (t.interpret (Ty.after base s.find?)).vars.filter (N ≤ ·) := fun h =>
          hN (of_decide_eq_true (List.mem_filter.1 h).2)
        exact (if_neg hnot).trans (if_neg hN).symm

/-! ## 3. Schemas and schemes -/

/-- What a scheme must allow to stand for a binding. -/
def Types.BindingFits (θ : TypeVar → SimpleType) : Binding → Scheme → Prop
  | .mono t, σ => σ = .mono (t.interpret θ)
  | .poly schema, σ => ∀ θ', (∀ v, v ∉ schema.quantified → θ' v = θ v) →
      Solves θ' schema.constraints → σ.Instance (schema.type.interpret θ')

/-- The context gives the same names as the environment, and schemes that stand for their
    bindings. -/
inductive Types.Fits (θ : TypeVar → SimpleType) : List (String × Binding) → Context → Prop where
  | nil : Fits θ [] []
  | cons {x : String} {b : Binding} {σ : Scheme} {bindings : List (String × Binding)} {Γ : Context}
      (hb : BindingFits θ b σ) (h : Fits θ bindings Γ) : Fits θ ((x, b) :: bindings) ((x, σ) :: Γ)

theorem mem_freeVariables_schema {schema : Schema} {v : TypeVar} :
    v ∈ schema.freeVariables ↔
      (v ∈ schema.type.occurrences ∨ v ∈ schema.constraints.flatMap Constraint.occurrences) ∧
        v ∉ schema.quantified := by
  rw [Schema.freeVariables, VarSet.mem_diff, VarSet.mem_ofList, List.mem_append]

theorem mem_environmentVariables {Γ : TypeEnvironment} {v : TypeVar} :
    v ∈ environmentVariables Γ ↔ ∃ entry ∈ Γ.toList, v ∈ entry.2.freeVariables := by
  rw [environmentVariables]
  induction Γ.toList with
  | nil => simp
  | cons entry rest ih => simp [VarSet.mem_union, ih]

namespace Types

variable {θ θ₁ : TypeVar → SimpleType}

open Classical in
/-- What a binding stands for depends on its free variables only. -/
theorem BindingFits.congr {b : Binding} {σ : Scheme} (h : BindingFits θ b σ)
    (heq : ∀ v ∈ b.freeVariables, θ v = θ₁ v) : BindingFits θ₁ b σ := by
  cases b with
  | mono t =>
    refine Eq.trans h (congrArg Scheme.mono ?_)
    exact Ty.interpret_congr t fun v hv => heq v (Ty.mem_freeVariables.2 hv)
  | poly schema =>
    intro θ' hθ' hsolves
    -- `θ'` where the schema looks, and `θ` elsewhere
    let used (v : TypeVar) : Prop :=
      v ∈ schema.type.occurrences ∨ v ∈ schema.constraints.flatMap Constraint.occurrences
    let ξ (v : TypeVar) : SimpleType := if used v then θ' v else θ v
    have hused : ∀ v, used v → θ' v = ξ v := fun v hv => (if_pos hv).symm
    have hξ : ∀ v, v ∉ schema.quantified → ξ v = θ v := by
      intro v hv
      by_cases hu : used v
      · rw [← hused v hu, hθ' v hv]
        exact (heq v (mem_freeVariables_schema.2 ⟨hu, hv⟩)).symm
      · exact if_neg hu
    have := h ξ hξ (hsolves.congr fun v hv => hused v (.inr hv))
    rwa [Ty.interpret_congr schema.type fun v hv => hused v (.inl hv)]

theorem Fits.congr : ∀ {bindings : List (String × Binding)} {Γ : Context}, Fits θ bindings Γ →
    (∀ entry ∈ bindings, ∀ v ∈ entry.2.freeVariables, θ v = θ₁ v) → Fits θ₁ bindings Γ
  | _, _, .nil, _ => .nil
  | _, _, .cons hb h, heq =>
    .cons (hb.congr (heq _ List.mem_cons_self)) (h.congr fun entry hentry =>
      heq entry (List.mem_cons_of_mem _ hentry))

/-- A name of an environment is a name of the context. -/
theorem Fits.lookup : ∀ {bindings : List (String × Binding)} {Γ : Context} {x : String}
    {b : Binding}, Fits θ bindings Γ → lookup? ⟨bindings⟩ x = some b →
    ∃ σ, Γ.lookup x = some σ ∧ BindingFits θ b σ
  | _, _, _, _, .nil, hx => nomatch hx
  | _, _, x, _, .cons (x := y) hb h, hx => by
    rw [lookup?, Scope.findSome?, List.findSome?_cons] at hx
    by_cases hy : y = x
    · subst hy
      simp only [if_true, Option.some.injEq] at hx
      exact ⟨_, List.lookup_cons_self, hx ▸ hb⟩
    · simp only [hy, if_false] at hx
      obtain ⟨σ, hσ, hfits⟩ := h.lookup hx
      refine ⟨σ, ?_, hfits⟩
      rw [List.lookup_cons, beq_false_of_ne (Ne.symm hy)]
      exact hσ

theorem Fits.append {more : List (String × Binding)} {bindings : List (String × Binding)}
    {Γ' Γ : Context} (h' : Fits θ more Γ') (h : Fits θ bindings Γ) :
    Fits θ (more ++ bindings) (Γ' ++ Γ) := by
  induction h' with
  | nil => exact h
  | cons hb _ ih => exact .cons hb ih

/-- Bindings and schemes that fit one by one, the last of them innermost. -/
theorem fits_reverse {α : Type} {binding : α → String × Binding} {scheme : α → String × Scheme} :
    ∀ as : List α, (∀ a ∈ as, (binding a).1 = (scheme a).1 ∧
      BindingFits θ (binding a).2 (scheme a).2) →
      Fits θ (as.map binding).reverse (as.map scheme).reverse
  | [], _ => .nil
  | a :: as, h => by
    obtain ⟨hname, hfits⟩ := h a List.mem_cons_self
    rw [List.map_cons, List.map_cons, List.reverse_cons, List.reverse_cons]
    refine (fits_reverse as fun a' ha' => h a' (List.mem_cons_of_mem _ ha')).append ?_
    rw [show binding a = ((scheme a).1, (binding a).2) from Prod.ext hname rfl]
    exact .cons hfits .nil

/-! ## 4. Generalised bindings -/

/-- The variables that a scheme quantifies for a type whose equations `θ₁` solves in the most
    general way: those from `N` on, if a variable of inference is quantified at all. -/
def generalVariables (fixed : VarSet) (since : List Constraint) (θ₁ : TypeVar → SimpleType)
    (N : Nat) (t : Ty) : List Nat :=
  if ((VarSet.ofList (t.occurrences ++ since.flatMap Constraint.occurrences)).diff
      fixed).isEmpty then []
  else (t.interpret θ₁).vars.filter (N ≤ ·)

theorem le_of_mem_generalVariables {fixed : VarSet} {since : List Constraint} {N n : Nat} {t : Ty}
    (h : n ∈ generalVariables fixed since θ₁ N t) : N ≤ n := by
  rw [generalVariables] at h
  split at h
  · cases h
  · exact of_decide_eq_true (List.mem_filter.1 h).2

/-- **A generalised binding stands for the scheme** of the most general solution. -/
theorem fits_generalizeOver {fixed : VarSet} {since : List Constraint} {N : Nat}
    (hfixed : ∀ v ∈ fixed, θ₁ v = θ v) (hθ : Solves θ since)
    (hgeneral : ∀ θ', (∀ v ∈ fixed, θ' v = θ v) → Solves θ' since → ∀ t : Ty,
      Scheme.Instance ⟨(t.interpret θ₁).vars.filter (N ≤ ·), t.interpret θ₁⟩ (t.interpret θ'))
    (t : Ty) :
    BindingFits θ (generalizeOver fixed t since)
      ⟨generalVariables fixed since θ₁ N t, t.interpret θ₁⟩ := by
  simp only [generalizeOver, generalVariables]
  split
  · next hempty =>
    refine congrArg Scheme.mono (Ty.interpret_congr t fun v hv => hfixed v ?_)
    have hnone := List.isEmpty_iff.1 hempty
    refine Decidable.byContradiction fun hv' => ?_
    have : v ∈ (VarSet.ofList (t.occurrences ++ since.flatMap Constraint.occurrences)).diff fixed :=
      VarSet.mem_diff.2 ⟨VarSet.mem_ofList.2 (List.mem_append_left _ hv), hv'⟩
    rw [hnone] at this
    cases this
  · intro θ' hθ' hsolves
    refine hgeneral θ' (fun v hv => hθ' v fun h => (VarSet.mem_diff.1 h).2 hv) (fun c hc => ?_) t
    -- an equation that the schema leaves out holds no quantified variable
    by_cases hany : (c.occurrences.any fun v =>
        ((VarSet.ofList (t.occurrences ++ since.flatMap Constraint.occurrences)).diff
          fixed).contains v) = true
    · exact hsolves c (List.mem_filter.2 ⟨hc, hany⟩)
    · have hc' : Solves θ [c] := fun d hd => List.mem_singleton.1 hd ▸ hθ c hc
      refine (hc'.congr fun v hv => (hθ' v fun h => hany ?_).symm) c (List.mem_singleton.2 rfl)
      rw [List.any_eq_true]
      refine ⟨v, ?_, List.contains_iff_mem.2 h⟩
      simpa using hv

end Types

end ClosureML
