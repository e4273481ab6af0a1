import ClosureML.Proofs.Types.IncrementalSolving
import ClosureML.Proofs.Types.MostGeneralUnifier
import Mathlib.Data.List.Induction

/-!
# Which equation is blamed

Solving takes equations apart, writes bindings into those that wait, and stops at the first part
that cannot be solved. The position it then reports is the one of an equation as it was given: the
first that has no common unifier with the equations before it. Whatever comes behind it has no say.

* `Unifiable`: some substitution unifies the equations;
* `IsFirstConflict`: the equation with this index is the first that is in conflict with those
  before it.

Main statement: `solve_blames_firstConflict`.
-/

namespace ClosureML

/-! ## 1. Conflicts -/

/-- Some substitution unifies the equations. -/
def Unifiable (cs : List Constraint) : Prop := ∃ σ, Unifies σ cs

/-- The equations up to the one with index `k` have no common unifier, and `k` is the least index of
    this kind. -/
structure IsFirstConflict (cs : List Constraint) (k : Nat) : Prop where
  conflict : ¬ Unifiable (cs.take (k + 1))
  least : ∀ j < k, Unifiable (cs.take (j + 1))

theorem unifiable_iff_solve {cs : List Constraint} : Unifiable cs ↔ ∃ s, solve cs = .ok s :=
  (solve_mostGeneral cs).2.symm

/-- Fewer equations have the unifiers of more. -/
theorem Unifiable.take {cs : List Constraint} (h : Unifiable cs) (k : Nat) :
    Unifiable (cs.take k) :=
  h.imp fun _ hσ c hc => hσ c (List.mem_of_mem_take hc)

/-! ## 2. Positions of errors -/

/-- The parts of two lists are blamed on the equation between the lists. -/
theorem position_of_mem_pairwise {position : Position} {ts us : List Ty} {c : Constraint}
    (h : c ∈ pairwise position ts us) : c.position = position := by
  rw [pairwise, ← List.map_uncurry_zip_eq_zipWith] at h
  obtain ⟨_, -, rfl⟩ := List.mem_map.1 h
  rfl

/-- **An error is blamed on an equation that was given**: what equations are taken apart into, and
    what bindings make of them, keeps their positions. It is always one of unification. -/
theorem unifyFrom_blames {s : Substitution} {cs : List Constraint} {e : CompileError}
    (h : unifyFrom s cs = .error e) :
    e.cause.kind = .unifyError ∧ ∃ c ∈ cs, e.position = c.position := by
  fun_induction unifyFrom s cs with
  | case1 => cases h
  | case2 s t position pending ih =>
    obtain ⟨hkind, c, hc, he⟩ := ih h
    exact ⟨hkind, c, List.mem_cons_of_mem _ hc, he⟩
  | case3 s position pending p q p' q' hne ih =>
    obtain ⟨hkind, c, hc, he⟩ := ih h
    rcases List.mem_cons.1 hc with rfl | hc
    · exact ⟨hkind, _, List.mem_cons_self, he⟩
    rcases List.mem_cons.1 hc with rfl | hc
    · exact ⟨hkind, _, List.mem_cons_self, he⟩
    · exact ⟨hkind, c, List.mem_cons_of_mem _ hc, he⟩
  | case4 s position pending ts us hlength hne ih =>
    obtain ⟨hkind, c, hc, he⟩ := ih h
    rcases List.mem_append.1 hc with hc | hc
    · exact ⟨hkind, _, List.mem_cons_self, he.trans (position_of_mem_pairwise hc)⟩
    · exact ⟨hkind, c, List.mem_cons_of_mem _ hc, he⟩
  -- a binding goes into the equations behind it, which keep their positions
  | case7 s position pending v t hoccurs hne ih =>
    obtain ⟨hkind, c, hc, he⟩ := ih h
    obtain ⟨d, hd, rfl⟩ := List.mem_map.1 hc
    exact ⟨hkind, d, List.mem_cons_of_mem _ hd, he⟩
  | case9 s position pending t v hnotvar hoccurs hne ih =>
    obtain ⟨hkind, c, hc, he⟩ := ih h
    obtain ⟨d, hd, rfl⟩ := List.mem_map.1 hc
    exact ⟨hkind, d, List.mem_cons_of_mem _ hd, he⟩
  -- the four ways to fail, each at the first equation
  | case5 | case6 | case8 | case10 =>
    cases h
    exact ⟨rfl, _, List.mem_cons_self, rfl⟩

/-- An equation that a solution cannot be extended by is blamed itself. -/
theorem Substitution.extend_error_position {s : Substitution} {c : Constraint} {e : CompileError}
    (h : s.extend [c] = .error e) : e.position = c.position := by
  obtain ⟨-, d, hd, he⟩ := unifyFrom_blames h
  cases List.mem_singleton.1 hd
  exact he

/-! ## 3. The equation that is blamed -/

/-- An error does not change with the equations behind. -/
theorem solve_append_error {cs : List Constraint} {e : CompileError} (h : solve cs = .error e)
    (ds : List Constraint) : solve (cs ++ ds) = .error e := by
  rw [solve_append, h]
  rfl

/-- **Solving fails at one equation**: the ones before it are solved, and it is the one that their
    solution cannot be extended by. -/
theorem exists_of_solve_error {cs : List Constraint} {e : CompileError} (h : solve cs = .error e) :
    ∃ before c behind s, cs = before ++ c :: behind ∧ solve before = .ok s ∧
      s.extend [c] = .error e := by
  -- the last equation is taken off: either those before it fail already, or it is the one
  induction cs using List.reverseRecOn with
  | nil => simp [solve, unifyFrom] at h
  | append_singleton cs last ih =>
    cases hsolve : solve cs with
    | error e' =>
      obtain rfl : e' = e := by
        rw [solve_append_error hsolve] at h
        exact Except.error.inj h
      obtain ⟨before, c, behind, s, rfl, hbefore, hc⟩ := ih hsolve
      exact ⟨before, c, behind ++ [last], s, by simp, hbefore, hc⟩
    | ok s =>
      rw [solve_append, hsolve] at h
      exact ⟨cs, last, [], s, rfl, hsolve, h⟩

/-- An equation that the solution of those before it cannot be extended by is the first conflict. -/
theorem isFirstConflict_of_extend {before behind : List Constraint} {c : Constraint}
    {s : Substitution} {e : CompileError} (hbefore : solve before = .ok s)
    (hc : s.extend [c] = .error e) :
    IsFirstConflict (before ++ c :: behind) before.length where
  conflict h := by
    obtain ⟨s', hs'⟩ := unifiable_iff_solve.1 h
    have htake : (before ++ c :: behind).take (before.length + 1) = before ++ [c] := by
      rw [List.take_length_add_append, List.take_succ_cons, List.take_zero]
    have hrun : solve (before ++ [c]) = .error e := by
      rw [solve_append, hbefore]
      exact hc
    rw [htake, hrun] at hs'
    cases hs'
  least j hj := by
    rw [List.take_append_of_le_length (Nat.succ_le_of_lt hj)]
    exact (unifiable_iff_solve.2 ⟨s, hbefore⟩).take _

/-- **The first conflict is blamed.** When equations cannot be solved, the error is one of
    unification, and its position is the one of the first equation that has no common unifier with
    the equations before it. -/
theorem solve_blames_firstConflict {cs : List Constraint} {e : CompileError}
    (h : solve cs = .error e) :
    e.cause.kind = .unifyError ∧
      ∃ k, ∃ hk : k < cs.length, IsFirstConflict cs k ∧ e.position = cs[k].position := by
  obtain ⟨before, c, behind, s, rfl, hbefore, hc⟩ := exists_of_solve_error h
  refine ⟨(unifyFrom_blames h).1, before.length, by simp, isFirstConflict_of_extend hbefore hc, ?_⟩
  rw [Substitution.extend_error_position hc]
  simp

/-- Four equations. The third fails against what the first two say of its variable, the fourth by
    itself. -/
def conflictingEquations : List Constraint :=
  [⟨.function (.var (.ofNat 0)) .int, .function (.var (.ofNat 1)) .int, ⟨1, 1⟩⟩,
    ⟨.tuple [.var (.ofNat 1), .bool], .tuple [.int, .bool], ⟨1, 2⟩⟩,
    ⟨.function .int (.var (.ofNat 0)), .function .int .bool, ⟨1, 3⟩⟩,
    ⟨.int, .bool, ⟨1, 4⟩⟩]

/-- The part of the third equation that fails is blamed at the position of the whole. -/
theorem solve_blames_firstConflict_third :
    solve conflictingEquations = .error ⟨.mismatch .int .bool, ⟨1, 3⟩⟩ ∧
      ∃ k, ∃ hk : k < conflictingEquations.length, IsFirstConflict conflictingEquations k ∧
        (⟨1, 3⟩ : Position) = conflictingEquations[k].position := by
  have h : solve conflictingEquations = .error ⟨.mismatch .int .bool, ⟨1, 3⟩⟩ := by cbv
  exact ⟨h, (solve_blames_firstConflict h).2⟩

end ClosureML
