import ClosureML.Proofs.Types.UnificationCorrect

/-!
# Solutions are most general unifiers

What solving gives, said by substitutions in place of valuations: a substitution unifies equations
when it makes both sides of each of them the same type, and a solution is one that every other
unifier goes through.

* `Unifies`: a substitution makes the sides of all equations the same;
* `Substitution.IsMostGeneral`: what a solution has to be.

Main statement: `solve_mostGeneral` (solving gives a most general unifier, exactly when there is a
unifier at all).
-/

namespace ClosureML

/-! ## 1. Substitutions as valuations -/

namespace Ty

mutual

/-- A type is determined by the simple type with the same variables. -/
theorem eq_of_lift_eq : ∀ t u : Ty, t.lift = u.lift → t = u
  | base _, u, h => by cases u <;> simp_all [lift, interpret]
  | data _, u, h => by cases u <;> simp_all [lift, interpret]
  | function p r, u, h => by
    cases u with
    | function p' r' =>
      obtain ⟨hp, hr⟩ := SimpleType.function.inj h
      rw [eq_of_lift_eq p p' hp, eq_of_lift_eq r r' hr]
    | _ => nomatch h
  | tuple ts, u, h => by
    cases u with
    | tuple us => rw [eq_of_liftAll_eq ts us (SimpleType.tuple.inj h)]
    | _ => nomatch h
  | var v, u, h => by
    cases u with
    | var w => rw [TypeVar.toNat_inj.1 (SimpleType.var.inj h)]
    | _ => nomatch h

theorem eq_of_liftAll_eq : ∀ ts us : List Ty,
    interpretAll (fun v => .var v.toNat) ts = interpretAll (fun v => .var v.toNat) us → ts = us
  | [], us, h => by
    cases us with
    | nil => rfl
    | cons u us => nomatch h
  | t :: ts, us, h => by
    cases us with
    | nil => nomatch h
    | cons u us =>
      obtain ⟨ht, hts⟩ := List.cons.inj h
      rw [eq_of_lift_eq t u ht, eq_of_liftAll_eq ts us hts]

end

/-- The valuation in which each variable stands for what a substitution gives for it. -/
def valuation (σ : TypeVar → Option Ty) : TypeVar → SimpleType := after (fun v => .var v.toNat) σ

theorem interpret_valuation (σ : TypeVar → Option Ty) (t : Ty) :
    t.interpret (valuation σ) = (t.substitute σ).lift := (interpret_substitute _ σ t).symm

end Ty

/-- The substitution makes both sides of each equation the same type. -/
def Unifies (σ : TypeVar → Option Ty) (cs : List Constraint) : Prop :=
  ∀ c ∈ cs, c.left.substitute σ = c.right.substitute σ

/-- A substitution unifies equations when it solves them as a valuation. -/
theorem unifies_iff_solves {σ : TypeVar → Option Ty} {cs : List Constraint} :
    Unifies σ cs ↔ Solves (Ty.valuation σ) cs := by
  refine forall_congr' fun c => forall_congr' fun _ => ?_
  rw [Constraint.Holds, Ty.interpret_valuation, Ty.interpret_valuation]
  exact ⟨congrArg Ty.lift, Ty.eq_of_lift_eq _ _⟩

/-! ## 2. Bound variables -/

/-- **Solving binds variables of the equations only**, beside those that were bound before. -/
theorem mem_of_find?_unifyFrom {s s' : Substitution} {cs : List Constraint}
    (h : unifyFrom s cs = .ok s') {v : TypeVar} (hv : s'.find? v ≠ none) :
    s.find? v ≠ none ∨ v ∈ cs.flatMap Constraint.occurrences := by
  have bound : ∀ {s : Substitution} {w : TypeVar} {t : Ty} {cs : List Constraint},
      (s.bind w t).find? v ≠ none ∨ v ∈ (replaceIn w t cs).flatMap Constraint.occurrences →
        s.find? v ≠ none ∨ v = w ∨ v ∈ t.occurrences ∨ v ∈ cs.flatMap Constraint.occurrences := by
    rintro s w t cs (hv | hv)
    · rw [Substitution.find?_bind] at hv
      split at hv
      · next hw => exact .inr (.inl hw)
      · exact .inl fun hnone => hv (by rw [hnone]; rfl)
    · rcases mem_occurrences_replaceIn hv with ⟨hv, -⟩ | hv
      · exact .inr (.inr (.inr hv))
      · exact .inr (.inr (.inl hv))
  -- only a binding extends the substitution, with variables of its own equation
  fun_induction unifyFrom s cs with
  | case1 s =>
    cases h
    exact .inl hv
  | case2 s t position pending ih =>
    exact (ih h).imp_right fun hv => List.mem_append_right _ hv
  | case3 s position pending p q p' q' hne ih =>
    refine (ih h).imp_right fun hv => ?_
    simp only [List.flatMap_cons, Constraint.occurrences, Ty.occurrences, List.mem_append]
      at hv ⊢
    grind
  | case4 s position pending ts us hlength hne ih =>
    refine (ih h).imp_right fun hv => ?_
    rw [List.flatMap_append, List.mem_append] at hv
    rw [List.flatMap_cons, List.mem_append]
    refine hv.imp_left fun hpair => ?_
    simpa [Constraint.occurrences, Ty.occurrences] using occurrences_pairwise hpair
  | case7 s position pending w t hoccurs hne ih =>
    refine (bound (ih h)).imp_right fun hv => ?_
    simpa [Constraint.occurrences, Ty.occurrences, or_assoc] using hv
  | case9 s position pending t w hnotvar hoccurs hne ih =>
    refine (bound (ih h)).imp_right fun hv => ?_
    simpa [Constraint.occurrences, Ty.occurrences, or_left_comm, or_assoc] using hv
  | case5 | case6 | case8 | case10 => cases h

/-! ## 3. Most general unifiers -/

namespace Substitution

/-- Applying an idempotent substitution again changes nothing. -/
theorem Idempotent.apply_apply {s : Substitution} (h : s.Idempotent) (t : Ty) :
    s.apply (s.apply t) = s.apply t :=
  Ty.substitute_eq_self _ fun _ hv => find?_of_mem_apply h t hv

/-- The substitution is a most general unifier of the equations: it unifies them, replaces all it
    knows at once, binds no variable but theirs, and every unifier goes through it. -/
structure IsMostGeneral (s : Substitution) (cs : List Constraint) : Prop where
  unifies : ∀ c ∈ cs, s.apply c.left = s.apply c.right
  idempotent : s.Idempotent
  apply_apply : ∀ t, s.apply (s.apply t) = s.apply t
  mem_occurrences : ∀ v t, s.find? v = some t → v ∈ cs.flatMap Constraint.occurrences
  factors : ∀ σ, Unifies σ cs → ∀ t, (s.apply t).substitute σ = t.substitute σ

end Substitution

theorem isMostGeneral_of_solve {cs : List Constraint} {s : Substitution} (h : solve cs = .ok s) :
    s.IsMostGeneral cs where
  unifies := unifies_iff_solves.2 (solves_of_solve h _)
  idempotent := (solve_ok h).1
  apply_apply := (solve_ok h).1.apply_apply
  mem_occurrences v t hv :=
    (mem_of_find?_unifyFrom (v := v) h (by simp [hv])).resolve_left fun hne => hne rfl
  factors σ hσ t := by
    have hagrees : s.AgreesWith (Ty.valuation σ) := ((solve_ok h).2 _).2 (unifies_iff_solves.1 hσ)
    apply Ty.eq_of_lift_eq
    rw [← Ty.interpret_valuation, ← Ty.interpret_valuation, hagrees.interpret_apply]

/-- **Solving computes most general unifiers.** What it gives is one, and it gives one exactly when
    some substitution unifies the equations. -/
theorem solve_mostGeneral (cs : List Constraint) :
    (∀ s, solve cs = .ok s → s.IsMostGeneral cs) ∧
      ((∃ s, solve cs = .ok s) ↔ ∃ σ, Unifies σ cs) := by
  refine ⟨fun s h => isMostGeneral_of_solve h, ?_, ?_⟩
  · rintro ⟨s, h⟩
    exact ⟨s.find?, (isMostGeneral_of_solve h).unifies⟩
  · rintro ⟨σ, hσ⟩
    exact solve_of_solves (unifies_iff_solves.1 hσ)

/-- A pair is decomposed, and a variable that was bound before is replaced in the older binding. -/
theorem solve_mostGeneral_pair : ∃ s, solve
      [⟨.var (.ofNat 0), .tuple [.var (.ofNat 1), .var (.ofNat 1)], ⟨1, 1⟩⟩,
        ⟨.tuple [.var (.ofNat 2), .var (.ofNat 1)], .tuple [.var (.ofNat 0), .int], ⟨1, 2⟩⟩] =
      .ok s ∧
    s.apply (.var (.ofNat 2)) = .tuple [.int, .int] ∧
    s.IsMostGeneral
      [⟨.var (.ofNat 0), .tuple [.var (.ofNat 1), .var (.ofNat 1)], ⟨1, 1⟩⟩,
        ⟨.tuple [.var (.ofNat 2), .var (.ofNat 1)], .tuple [.var (.ofNat 0), .int], ⟨1, 2⟩⟩] := by
  have h : solve
      [⟨.var (.ofNat 0), .tuple [.var (.ofNat 1), .var (.ofNat 1)], ⟨1, 1⟩⟩,
        ⟨.tuple [.var (.ofNat 2), .var (.ofNat 1)], .tuple [.var (.ofNat 0), .int], ⟨1, 2⟩⟩] =
      .ok ⟨[(.ofNat 1, .int), (.ofNat 2, .tuple [.int, .int]),
          (.ofNat 0, .tuple [.int, .int])]⟩ := by
    cbv
  exact ⟨_, h, by decide, (solve_mostGeneral _).1 _ h⟩

end ClosureML
