import ClosureML.Diagnostic.Report
import ClosureML.Syntax.Node
import ClosureML.Types.Substitution

/-!
# Unification

Equations between types are solved one after the other. An equation that holds is dropped, one
between functions or tuples becomes the equations between their parts, from left to right, and one
with a variable on a side binds this variable in all that is left.

* `unifyFrom` goes on from a substitution with equations that it was applied to;
* `solve` starts from nothing, `Substitution.extend` goes on with further equations;
* `Node.applyTypes` writes a solution into the types of a tree.

Each step lowers the number of variables in the equations that are left, or keeps it and makes the
equations smaller (`variableCount_bind_lt`, `variableCount_le`): so the steps end.
-/

namespace ClosureML

/-! ## 1. What ends the steps -/

namespace Ty

mutual

/-- The number of the nodes of a type. -/
def size : Ty → Nat
  | base _ => 1
  | data _ => 1
  | function p r => p.size + r.size + 1
  | tuple ts => sizeAll ts + 1
  | var _ => 1

/-- The number of the nodes of several types. -/
def sizeAll : List Ty → Nat
  | [] => 0
  | t :: ts => t.size + sizeAll ts

end

theorem size_pos (t : Ty) : 0 < t.size := by cases t <;> simp [size]

mutual

/-- After a variable was replaced, the variables are old ones or those of its replacement. -/
theorem mem_occurrences_single {v w : TypeVar} {u : Ty} :
    ∀ t : Ty, w ∈ (t.substitute (single v u)).occurrences →
      (w ∈ t.occurrences ∧ w ≠ v) ∨ w ∈ u.occurrences
  | base _, h => by simp [substitute, occurrences] at h
  | data _, h => by simp [substitute, occurrences] at h
  | function p r, h => by
    rw [substitute, occurrences, List.mem_append] at h
    rcases h with h | h
    · exact (mem_occurrences_single p h).imp (fun h => ⟨by simp [occurrences, h.1], h.2⟩) id
    · exact (mem_occurrences_single r h).imp (fun h => ⟨by simp [occurrences, h.1], h.2⟩) id
  | tuple ts, h => by
    rw [substitute, occurrences] at h
    exact (mem_occurrencesAll_single ts h).imp (fun h => ⟨by simp [occurrences, h.1], h.2⟩) id
  | var x, h => by
    by_cases hx : x = v
    · exact .inr (by simpa [substitute, single, hx] using h)
    · have hw : w = x := by simpa [substitute, single, hx, occurrences] using h
      exact .inl ⟨by simp [occurrences, hw], hw ▸ hx⟩

theorem mem_occurrencesAll_single {v w : TypeVar} {u : Ty} :
    ∀ ts : List Ty, w ∈ occurrencesAll (substituteAll (single v u) ts) →
      (w ∈ occurrencesAll ts ∧ w ≠ v) ∨ w ∈ u.occurrences
  | [], h => by simp [substituteAll, occurrencesAll] at h
  | t :: ts, h => by
    rw [substituteAll, occurrencesAll, List.mem_append] at h
    rcases h with h | h
    · exact (mem_occurrences_single t h).imp (fun h => ⟨by simp [occurrencesAll, h.1], h.2⟩) id
    · exact (mem_occurrencesAll_single ts h).imp (fun h => ⟨by simp [occurrencesAll, h.1], h.2⟩) id

end

end Ty

/-- The equations with `v` replaced by `t`. -/
def replaceIn (v : TypeVar) (t : Ty) (cs : List Constraint) : List Constraint :=
  cs.map (Constraint.substitute (Ty.single v t))

/-- The variables of several equations. -/
def constraintVariables (cs : List Constraint) : VarSet :=
  VarSet.ofList (cs.flatMap Constraint.occurrences)

/-- The number of variables of several equations, each counted once. -/
def variableCount (cs : List Constraint) : Nat := (constraintVariables cs).length

/-- The size of several equations. -/
def totalSize : List Constraint → Nat
  | [] => 0
  | c :: cs => c.left.size + c.right.size + totalSize cs

theorem totalSize_append (cs ds : List Constraint) :
    totalSize (cs ++ ds) = totalSize cs + totalSize ds := by
  induction cs with
  | nil => rw [List.nil_append, totalSize, Nat.zero_add]
  | cons c cs ih =>
    simp only [List.cons_append, totalSize, ih]
    omega

/-- Fewer variables are not more. -/
theorem variableCount_le {cs ds : List Constraint}
    (h : ∀ v, v ∈ cs.flatMap Constraint.occurrences → v ∈ ds.flatMap Constraint.occurrences) :
    variableCount cs ≤ variableCount ds :=
  VarSet.length_le (VarSet.ascending_ofList _) fun v hv =>
    VarSet.mem_ofList.2 (h v (VarSet.mem_ofList.1 hv))

/-- After a variable was replaced in equations, their variables are old ones or those of its
    replacement. -/
theorem mem_occurrences_replaceIn {cs : List Constraint} {v w : TypeVar} {t : Ty}
    (h : w ∈ (replaceIn v t cs).flatMap Constraint.occurrences) :
    (w ∈ cs.flatMap Constraint.occurrences ∧ w ≠ v) ∨ w ∈ t.occurrences := by
  simp only [replaceIn, List.mem_flatMap, List.mem_map] at h
  obtain ⟨_, ⟨d, hd, rfl⟩, hw⟩ := h
  have old : (w ∈ d.occurrences ∧ w ≠ v) ∨ w ∈ t.occurrences := by
    rw [Constraint.substitute, Constraint.occurrences, List.mem_append] at hw
    rcases hw with hw | hw
    · exact (Ty.mem_occurrences_single _ hw).imp_left
        fun h => ⟨List.mem_append_left _ h.1, h.2⟩
    · exact (Ty.mem_occurrences_single _ hw).imp_left
        fun h => ⟨List.mem_append_right _ h.1, h.2⟩
  exact old.imp_left fun h => ⟨List.mem_flatMap.2 ⟨d, hd, h.1⟩, h.2⟩

/-- **Binding a variable leaves fewer variables**: it is gone, and no new one comes in. -/
theorem variableCount_bind_lt {c : Constraint} {pending : List Constraint} {v : TypeVar} {t : Ty}
    (hv : v ∈ c.occurrences) (ht : ∀ w ∈ t.occurrences, w ∈ c.occurrences)
    (hvt : t.occurs v = false) :
    variableCount (replaceIn v t pending) < variableCount (c :: pending) := by
  have hfresh : v ∉ t.occurrences := fun h => by simp [Ty.occurs_iff.2 h] at hvt
  have key : ∀ w, w ∈ (replaceIn v t pending).flatMap Constraint.occurrences →
      w ∈ (c :: pending).flatMap Constraint.occurrences ∧ w ≠ v := by
    intro w hw
    rw [List.flatMap_cons]
    rcases mem_occurrences_replaceIn hw with ⟨hw, hne⟩ | hw
    · exact ⟨List.mem_append_right _ hw, hne⟩
    · exact ⟨List.mem_append_left _ (ht w hw), fun h => hfresh (h ▸ hw)⟩
  refine VarSet.length_lt (VarSet.ascending_ofList _) (v := v)
    (fun w hw => VarSet.mem_ofList.2 (key w (VarSet.mem_ofList.1 hw)).1) ?_
    fun h => (key v (VarSet.mem_ofList.1 h)).2 rfl
  exact VarSet.mem_ofList.2 (List.mem_flatMap.2 ⟨c, by simp, hv⟩)

/-- The equations between the parts of two lists. -/
def pairwise (position : Position) (ts us : List Ty) : List Constraint :=
  List.zipWith (fun t u => ⟨t, u, position⟩) ts us

theorem totalSize_pairwise_le (position : Position) (ts us : List Ty) :
    totalSize (pairwise position ts us) ≤ Ty.sizeAll ts + Ty.sizeAll us := by
  induction ts generalizing us with
  | nil => simp [pairwise, totalSize]
  | cons t ts ih =>
    cases us with
    | nil => simp [pairwise, totalSize]
    | cons u us =>
      have := ih us
      simp only [pairwise, totalSize, Ty.sizeAll, List.zipWith_cons_cons] at this ⊢
      omega

theorem occurrences_pairwise {position : Position} {ts us : List Ty} {v : TypeVar}
    (h : v ∈ (pairwise position ts us).flatMap Constraint.occurrences) :
    v ∈ Ty.occurrencesAll ts ++ Ty.occurrencesAll us := by
  induction ts generalizing us with
  | nil => simp [pairwise] at h
  | cons t ts ih =>
    cases us with
    | nil => simp [pairwise] at h
    | cons u us =>
      simp only [pairwise, List.zipWith_cons_cons, List.flatMap_cons, Constraint.occurrences,
        List.mem_append] at h
      simp only [Ty.occurrencesAll, List.mem_append]
      rcases h with (h | h) | h
      · exact .inl (.inl h)
      · exact .inr (.inl h)
      · have := ih h
        rw [List.mem_append] at this
        exact this.imp .inr .inr

theorem lex_of_le_of_lt {a a' b b' : Nat} (ha : a ≤ a') (hb : b < b') :
    Prod.Lex (· < ·) (· < ·) (a, b) (a', b') := by
  rcases Nat.lt_or_eq_of_le ha with h | rfl
  · exact .left _ _ h
  · exact .right _ hb

/-! ## 2. Solving -/

/-- The substitution that `s` becomes when the pending equations are solved from first to last, or
    the first of them that cannot be. The pending equations hold no variable that `s` binds. -/
def unifyFrom (s : Substitution) : List Constraint → Except CompileError Substitution
  | [] => .ok s
  | ⟨l, r, position⟩ :: pending =>
    if l = r then unifyFrom s pending
    else
      match l, r with
      | .function p q, .function p' q' =>
        unifyFrom s (⟨p, p', position⟩ :: ⟨q, q', position⟩ :: pending)
      | .tuple ts, .tuple us =>
        if ts.length = us.length then unifyFrom s (pairwise position ts us ++ pending)
        else
          .error ⟨.tupleLengths (.tuple ts) (.tuple us) ts.length us.length, position⟩
      | .var v, t =>
        if t.occurs v then .error ⟨.infiniteType v t, position⟩
        else unifyFrom (s.bind v t) (replaceIn v t pending)
      | t, .var v =>
        if t.occurs v then .error ⟨.infiniteType v t, position⟩
        else unifyFrom (s.bind v t) (replaceIn v t pending)
      | t, u => .error ⟨.mismatch t u, position⟩
termination_by cs => (variableCount cs, totalSize cs)
decreasing_by
  · refine lex_of_le_of_lt (variableCount_le fun v hv => by simp [hv]) ?_
    have := Ty.size_pos l
    simp only [totalSize]
    omega
  · refine lex_of_le_of_lt (variableCount_le fun v hv => ?_) ?_
    · simp only [List.flatMap_cons, Constraint.occurrences, Ty.occurrences, List.mem_append]
        at hv ⊢
      grind
    · simp only [totalSize, Ty.size]
      omega
  · refine lex_of_le_of_lt (variableCount_le fun v hv => ?_) ?_
    · rw [List.flatMap_append, List.mem_append] at hv
      rw [List.flatMap_cons, List.mem_append]
      refine hv.imp (fun hpair => ?_) id
      simpa [Constraint.occurrences, Ty.occurrences] using occurrences_pairwise hpair
    · have := totalSize_pairwise_le position ts us
      simp only [totalSize, totalSize_append, Ty.size] at this ⊢
      omega
  · exact Prod.Lex.left _ _ (variableCount_bind_lt
      (by simp [Constraint.occurrences, Ty.occurrences])
      (fun w hw => by simp [Constraint.occurrences, hw]) (Bool.eq_false_iff.2 ‹_›))
  · exact Prod.Lex.left _ _ (variableCount_bind_lt
      (by simp [Constraint.occurrences, Ty.occurrences])
      (fun w hw => by simp [Constraint.occurrences, hw]) (Bool.eq_false_iff.2 ‹_›))

/-- The solution of equations, in the order given. -/
def solve (cs : List Constraint) : Except CompileError Substitution := unifyFrom .empty cs

/-- The solution that a substitution becomes with further equations. -/
def Substitution.extend (s : Substitution) (cs : List Constraint) :
    Except CompileError Substitution :=
  unifyFrom s (cs.map s.applyConstraint)

/-! ## 3. Types of a tree -/

/-- The tree with the bound variables of every type replaced. -/
def Node.applyTypes (s : Substitution) (n : Node) : Node :=
  n.mapMarks fun m => ⟨m.position, m.ty.map s.apply⟩

end ClosureML
