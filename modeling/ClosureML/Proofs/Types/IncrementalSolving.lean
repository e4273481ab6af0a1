import ClosureML.Proofs.Types.InferenceInvariant
import Mathlib.Logic.Relation

/-!
# Solving on the way is solving from the start

Equations can be solved in parts: what is solved first is written into the equations that come
later, all at once, and the run goes on from there. Solving all of them in one run writes each
binding into the equations that wait, one after the other. Both give the same substitution, or the
same error.

So the type that a projection asks for on the way is the one that all the equations collected by
then give it, solved afresh: the solution that inference keeps is always the solution of the
equations that it counts as solved.

* `InferState.UpToDate`: the invariant of the solution that is kept;
* `Types.Site`, `Types.Enters`, `Types.Comes`: where inference is at work, and how it goes from a
  tree to the trees in it, in runs that succeed and in runs that fail later on.

Main statements: `unifyFrom_append`, `solve_append`, `Node.infer_keeps`, `Comes.upToDate`,
`Comes.fails` and `resolveNow_eq_solve`.
-/

namespace ClosureML

open ClosureML.Types

/-! ## 1. A binding in equations that wait -/

section Bind

variable {s : Substitution} {v : TypeVar} {t : Ty}

mutual

/-- **One more binding is one more replacement**: types in which a variable was not bound yet are
    replaced in by the longer substitution as by the shorter one and then by the binding. -/
theorem Ty.substitute_bind (hv : s.find? v = none) : ∀ u : Ty,
    u.substitute (s.bind v t).find? = (u.substitute s.find?).substitute (Ty.single v t)
  | .base _ => rfl
  | .data _ => rfl
  | .function p r => by
    simp only [Ty.substitute, Ty.substitute_bind hv p, Ty.substitute_bind hv r]
  | .tuple ts => by simp only [Ty.substitute, Ty.substituteAll_bind hv ts]
  | .var w => by
    rw [Ty.substitute, Ty.substitute, Substitution.find?_bind]
    by_cases hw : w = v
    · subst hw
      simp [hv, Ty.substitute, Ty.single]
    · cases hbound : s.find? w with
      | none => simp [hw, Ty.substitute, Ty.single]
      | some u => simp [hw]

theorem Ty.substituteAll_bind (hv : s.find? v = none) : ∀ us : List Ty,
    Ty.substituteAll (s.bind v t).find? us =
      Ty.substituteAll (Ty.single v t) (Ty.substituteAll s.find? us)
  | [] => rfl
  | u :: us => by
    simp only [Ty.substituteAll, Ty.substitute_bind hv u, Ty.substituteAll_bind hv us]

end

/-- Replacing a variable in equations that a substitution was applied to applies the substitution
    with one more binding. -/
theorem replaceIn_map_applyConstraint (hv : s.find? v = none) (cs : List Constraint) :
    replaceIn v t (cs.map s.applyConstraint) = cs.map (s.bind v t).applyConstraint := by
  rw [replaceIn, List.map_map]
  refine List.map_congr_left fun c _ => ?_
  simp only [Function.comp_apply, Substitution.applyConstraint, Constraint.substitute,
    Ty.substitute_bind hv]

theorem replaceIn_append (cs ds : List Constraint) :
    replaceIn v t (cs ++ ds) = replaceIn v t cs ++ replaceIn v t ds := List.map_append

end Bind

/-- Applying the substitution without bindings changes nothing. -/
theorem Substitution.map_applyConstraint_empty (cs : List Constraint) :
    cs.map empty.applyConstraint = cs := by
  have hside : ∀ t : Ty, t.substitute empty.find? = t := fun t =>
    Ty.substitute_eq_self t fun _ _ => rfl
  refine (List.map_congr_left fun c _ => ?_).trans (List.map_id cs)
  rw [applyConstraint, Constraint.substitute, hside, hside, id]

/-! ## 2. Solving in parts -/

open Substitution

/-- **A run over equations and others behind them** is a run over the first, and then one over the
    others with the solution of the first written into them. -/
theorem unifyFrom_append {s : Substitution} {cs : List Constraint} (hcs : s.Apart cs)
    (ds : List Constraint) :
    unifyFrom s (cs ++ ds.map s.applyConstraint) = unifyFrom s cs >>= fun s' => s'.extend ds := by
  fun_induction unifyFrom s cs with
  | case1 s => rfl
  | case2 s t position pending ih =>
    rw [List.cons_append, unifyFrom_trivial]
    exact ih hcs.tail
  | case3 s position pending p q p' q' hne ih =>
    rw [List.cons_append, unifyFrom, if_neg hne]
    exact ih hcs.function
  | case4 s position pending ts us hlength hne ih =>
    rw [List.cons_append, unifyFrom, if_neg hne, if_pos hlength, ← List.append_assoc]
    exact ih hcs.tuple
  | case5 s position pending ts us hlength hne =>
    rw [List.cons_append, unifyFrom, if_neg hne, if_neg hlength]
    rfl
  | case6 s position pending v t hoccurs hne =>
    rw [List.cons_append, unifyFrom, if_neg hne, if_pos hoccurs]
    rfl
  | case7 s position pending v t hoccurs hne ih =>
    -- the binding goes into the equations behind as it goes into those that are pending
    have hvt : v ∉ t.occurrences := fun h => hoccurs (Ty.occurs_iff.2 h)
    have hv : s.find? v = none := hcs.left v (.head _)
    rw [List.cons_append, unifyFrom, if_neg hne, if_neg hoccurs, replaceIn_append,
      replaceIn_map_applyConstraint hv]
    exact ih (hcs.tail.bind hcs.right hvt)
  | case8 s position pending t v hnotvar hoccurs hne =>
    rw [List.cons_append, unifyFrom, if_neg hne, if_pos hoccurs]
    · rfl
    · exact hnotvar
  | case9 s position pending t v hnotvar hoccurs hne ih =>
    have hvt : v ∉ t.occurrences := fun h => hoccurs (Ty.occurs_iff.2 h)
    have hv : s.find? v = none := hcs.right v (.head _)
    rw [List.cons_append, unifyFrom, if_neg hne, if_neg hoccurs, replaceIn_append,
      replaceIn_map_applyConstraint hv]
    · exact ih (hcs.tail.bind hcs.left hvt)
    · exact hnotvar
  | case10 s position pending t u hfunction htuple hleft hright hne =>
    rw [List.cons_append, unifyFrom, if_neg hne]
    · rfl
    all_goals assumption

/-- **Solving in parts is solving at once**, errors included. -/
theorem solve_append (cs ds : List Constraint) :
    solve (cs ++ ds) = solve cs >>= fun s => s.extend ds := by
  have h := unifyFrom_append (apart_empty cs) ds
  rwa [map_applyConstraint_empty] at h

/-! ## 3. The solution that inference keeps -/

namespace Types

/-- The solution that is kept is the one of the equations that are counted as solved. -/
structure InferState.UpToDate (s : InferState) : Prop where
  counted : s.solvedUntil ≤ s.constraints.toList.length
  solved : solve (s.constraints.toList.take s.solvedUntil) = .ok s.solved

namespace InferState.UpToDate

theorem empty : InferState.empty.UpToDate where
  counted := Nat.le_refl 0
  solved := by simp [InferState.empty, solve, unifyFrom]

variable {s s' : InferState}

/-- More equations leave the solution of those before as it is. -/
theorem add (h : s.UpToDate) (hcs : s.constraints.toList <+: s'.constraints.toList)
    (hcount : s'.solvedUntil = s.solvedUntil) (hsolved : s'.solved = s.solved) : s'.UpToDate := by
  obtain ⟨more, hmore⟩ := hcs
  constructor
  · rw [hcount, ← hmore, List.length_append]
    exact Nat.le_add_right_of_le h.counted
  · rw [hcount, hsolved, ← hmore, List.take_append_of_le_length h.counted]
    exact h.solved

/-- What is kept, extended by the equations that are not counted yet, is the solution of all. -/
theorem extend_eq (h : s.UpToDate) :
    s.solved.extend (s.constraints.toList.drop s.solvedUntil) = solve s.constraints.toList := by
  have hparts := solve_append (s.constraints.toList.take s.solvedUntil)
    (s.constraints.toList.drop s.solvedUntil)
  rw [List.take_append_drop, h.solved] at hparts
  exact hparts.symm

/-- **Solving on the way** gives the type that the solution of all equations gives, or the error
    that solving all of them gives. -/
theorem resolveNow_run (h : s.UpToDate) (t : Ty) :
    (resolveNow t).run s =
      match solve s.constraints.toList with
      | .ok σ => .ok (σ.apply t) { s with solved := σ, solvedUntil := s.constraints.size }
      | .error e => .error e s := by
  rw [← h.extend_eq]
  show (match s.solved.extend (s.constraints.toList.drop s.solvedUntil) with
    | .ok solved => _
    | .error e => _ : Infer Ty).run s = _
  cases s.solved.extend (s.constraints.toList.drop s.solvedUntil) <;> rfl

end InferState.UpToDate

end Types

/-! ## 4. What the steps keep -/

open InferState (UpToDate)

namespace Types

theorem fresh_keeps : Keeps UpToDate fresh :=
  .modifyGet fun _ hs => hs.add (List.prefix_refl _) rfl rfl

theorem constrain_keeps {t u : Ty} {position : Position} :
    Keeps UpToDate (constrain t u position) := by
  unfold constrain
  dsimp only
  split
  · exact .pure
  · refine .modify fun s hs => hs.add ?_ rfl rfl
    rw [Array.toList_push]
    exact List.prefix_append _ _

theorem constraintCount_keeps : Keeps UpToDate constraintCount :=
  .bind .get fun _ => .pure

theorem constraintsAround_keeps {start : Nat} : Keeps UpToDate (constraintsAround start) :=
  .bind .get fun _ => .pure

theorem ascribedOrFresh_keeps : ∀ {ascription : Option TypeExpr},
    Keeps UpToDate (ascribedOrFresh ascription)
  | some _ => .pure
  | none => fresh_keeps

theorem agrees_keeps {t : Ty} {position : Position} {ascription : Option TypeExpr}
    {s s' : InferState} (h : Agrees t position ascription s s') (hs : s.UpToDate) :
    s'.UpToDate := by
  cases ascription with
  | none => exact h ▸ hs
  | some a => exact constrain_keeps.run hs h

theorem freshCopies_keeps : ∀ {vs : VarSet}, Keeps UpToDate (freshCopies vs)
  | [] => .pure
  | _ :: _ => .bind fresh_keeps fun _ => .bind freshCopies_keeps fun _ => .pure

theorem instantiate_keeps {schema : Schema} : Keeps UpToDate (instantiate schema) := by
  refine .bind freshCopies_keeps fun copies => .bind (.modify fun s hs => hs.add ?_ rfl rfl)
    fun _ => .pure
  rw [Array.toList_appendList]
  exact List.prefix_append _ _

/-- Behind a solution on the way, all the equations are counted as solved. -/
theorem resolveNow_keeps {t : Ty} : Keeps UpToDate (resolveNow t) := by
  intro s u s' hs hrun
  obtain ⟨σ, hσ, -, rfl⟩ := runs_resolveNow hrun
  constructor
  · exact Nat.le_of_eq Array.length_toList.symm
  · rw [hs.extend_eq] at hσ
    rw [← Array.length_toList, List.take_length]
    exact hσ

theorem declareConstructors_keeps {d : String} : ∀ {Γ : TypeEnvironment} {cs : List Node},
    Keeps UpToDate (Types.declareConstructors d Γ cs)
  | _, [] => .pure
  | _, n :: _ => by
    cases n with
    | dataConstructor =>
      exact .bind (.modify fun s hs => hs.add (List.prefix_refl _) rfl rfl) fun _ =>
        .bind declareConstructors_keeps fun _ => .pure
    | _ => exact .throw

theorem declareGroup_keeps {arms : List Node} : Keeps UpToDate (declareGroup arms) := by
  induction arms with
  | nil => exact .pure
  | cons n _ ih =>
    cases n with
    | letRecArm =>
      exact .bind ascribedOrFresh_keeps fun _ => .bind ascribedOrFresh_keeps fun _ =>
        .bind ih fun _ => .pure
    | _ => exact .throw

mutual

theorem inferPattern_keeps : ∀ n : Node, Keeps UpToDate (inferPattern n)
  | .patternBinder .. => .bind fresh_keeps fun _ => .pure
  | .patternLiteral .. => .pure
  | .patternTuple _ ps => .bind (inferPatterns_keeps ps) fun _ => .pure
  | .patternConstructor _ c ps _ => by
    refine .bind .get fun s => ?_
    cases s.signatures.lookup c with
    | none => exact .throw
    | some signature =>
      dsimp only
      split
      · exact .throw
      · exact .bind (inferArguments_keeps ps _) fun _ => .pure
  | .top .. | .literal .. | .reference .. | .builtin .. | .lambda .. | .application ..
  | .letIn .. | .letRec .. | .letRecArm .. | .conditional .. | .binary .. | .unary ..
  | .sequence .. | .tuple .. | .projection .. | .dataType .. | .dataConstructor ..
  | .matchWith .. | .matchArm .. | .indexed .. => .throw

theorem inferPatterns_keeps : ∀ ns : List Node, Keeps UpToDate (inferPatterns ns)
  | [] => .pure
  | n :: ns => .bind (inferPattern_keeps n) fun _ => .bind (inferPatterns_keeps ns) fun _ =>
    .pure

theorem inferArguments_keeps : ∀ (ns : List Node) (ts : List Ty),
    Keeps UpToDate (inferArguments ns ts)
  | [], _ => .pure
  | _ :: _, [] => .pure
  | n :: ns, _ :: ts => .bind (inferPattern_keeps n) fun _ => .bind constrain_keeps fun _ =>
    .bind (inferArguments_keeps ns ts) fun _ => .pure

end

end Types

/-! ## 5. What a run keeps -/

mutual

/-- **A run of inference keeps the solution up to date.** -/
theorem Node.infer_keeps {g : Generalizer} : ∀ (n : Node) {Γ : TypeEnvironment},
    Keeps UpToDate (n.infer g Γ)
  | .top _ e, _ => .bind e.infer_keeps fun _ => .pure
  | .literal .., _ => .pure
  | .reference _ x, Γ => by
    unfold Node.infer
    cases lookup? Γ x with
    | none => exact .throw
    | some b =>
      cases b with
      | mono t => exact .pure
      | poly schema => exact .bind instantiate_keeps fun _ => .pure
  | .builtin _ b, _ => by
    refine .bind fresh_keeps fun t => ?_
    cases b with
    | println | print => exact .bind .pure fun _ => .pure
    | panic => exact .bind fresh_keeps fun _ => .pure
  | .lambda _ _ _ body, _ => .bind ascribedOrFresh_keeps fun _ =>
    .bind body.infer_keeps fun _ => .pure
  | .application _ f a, _ => .bind f.infer_keeps fun _ => .bind a.infer_keeps fun _ =>
    .bind fresh_keeps fun _ => .bind constrain_keeps fun _ => .pure
  | .letIn _ _ ascription value body, _ => by
    refine .bind constraintCount_keeps fun _ => .bind value.infer_keeps fun _ => ?_
    cases ascription with
    | none =>
      exact .bind constraintsAround_keeps fun _ => .bind body.infer_keeps fun _ => .pure
    | some a =>
      exact .bind constrain_keeps fun _ => .bind constraintsAround_keeps fun _ =>
        .bind body.infer_keeps fun _ => .pure
  | .letRec _ arms body, _ => .bind declareGroup_keeps fun _ =>
    .bind constraintCount_keeps fun _ => .bind (Node.inferGroup_keeps arms _) fun _ =>
      .bind constraintsAround_keeps fun _ => .bind body.infer_keeps fun _ => .pure
  | .conditional _ c a b, _ => .bind c.infer_keeps fun _ => .bind constrain_keeps fun _ =>
    .bind a.infer_keeps fun _ => .bind b.infer_keeps fun _ =>
      .bind constrain_keeps fun _ => .pure
  | .binary _ o l r, _ => by
    refine .bind l.infer_keeps fun _ => .bind r.infer_keeps fun _ => ?_
    dsimp only
    cases o.operatorClass with
    | arithmetic | relational =>
      exact .bind constrain_keeps fun _ => .bind constrain_keeps fun _ => .pure
    | equality => exact .bind constrain_keeps fun _ => .pure
  | .unary _ _ e, _ => .bind e.infer_keeps fun _ => .bind constrain_keeps fun _ => .pure
  | .sequence _ es, _ => .bind (Node.inferAll_keeps es) fun _ => .pure
  | .tuple _ es, _ => .bind (Node.inferAll_keeps es) fun _ => .pure
  | .projection _ _ _ e, _ => by
    refine .bind e.infer_keeps fun _ => .bind resolveNow_keeps fun t => ?_
    cases t with
    | tuple ts =>
      dsimp only
      split
      · exact .pure
      · exact .throw
    | _ => exact .throw
  | .dataType _ _ _ body, _ => .bind declareConstructors_keeps fun _ =>
    .bind body.infer_keeps fun _ => .pure
  | .matchWith _ e arms, _ => .bind e.infer_keeps fun _ => .bind fresh_keeps fun _ =>
    .bind (Node.inferArms_keeps arms) fun _ => .pure
  | .letRecArm .., _ | .matchArm .., _ | .dataConstructor .., _ | .patternBinder .., _
  | .patternTuple .., _ | .patternLiteral .., _ | .patternConstructor .., _ | .indexed .., _ =>
    .throw

theorem Node.inferAll_keeps {g : Generalizer} : ∀ (ns : List Node) {Γ : TypeEnvironment},
    Keeps UpToDate (Node.inferAll g Γ ns)
  | [], _ => .pure
  | n :: ns, _ => .bind n.infer_keeps fun _ => .bind (Node.inferAll_keeps ns) fun _ =>
    .pure

theorem Node.inferGroup_keeps {g : Generalizer} : ∀ (ns : List Node) (types : List (Ty × Ty))
    {Γ : TypeEnvironment}, Keeps UpToDate (Node.inferGroup g Γ ns types)
  | [], _, _ => .pure
  | n :: _, [], _ => by
    cases n <;> exact .pure
  | n :: rest, _ :: types, _ => by
    cases n with
    | letRecArm m f x parameter result body =>
      exact .bind body.infer_keeps fun _ => .bind constrain_keeps fun _ =>
        .bind (Node.inferGroup_keeps rest types) fun _ => .pure
    | _ => exact .pure

theorem Node.inferArms_keeps {g : Generalizer} : ∀ (ns : List Node) {Γ : TypeEnvironment}
    {t r : Ty}, Keeps UpToDate (Node.inferArms g Γ t r ns)
  | [], _, _, _ => .pure
  | n :: rest, _, _, _ => by
    cases n with
    | matchArm m p body =>
      exact .bind (inferPattern_keeps p) fun _ => .bind constrain_keeps fun _ =>
        .bind body.infer_keeps fun _ => .bind constrain_keeps fun _ =>
          .bind (Node.inferArms_keeps rest) fun _ => .pure
    | _ => exact .throw

end

/-! ## 6. Where a run comes to -/

namespace Types

/-- Where inference is at work: at a tree, in an environment, from a state. -/
structure Site where
  environment : TypeEnvironment
  tree : Node
  state : InferState

/-- The names of a group with the types that are declared for them, while their values are given
    types. -/
abbrev groupEnvironment (Γ : TypeEnvironment) (declared : List (String × Ty × Ty)) :
    TypeEnvironment :=
  Γ.extendAll (declared.map fun (f, parameter, result) => (f, .mono (.function parameter result)))

/-- Inference of a tree goes on to a tree in it, when all that comes before this one succeeds. What
    comes behind it may still fail. -/
inductive Enters (g : Generalizer) : Site → Site → Prop where
  | program {Γ : TypeEnvironment} {m : Mark} {e : Node} {s : InferState} :
      Enters g ⟨Γ, .top m e, s⟩ ⟨Γ, e, s⟩
  | lambdaBody {Γ : TypeEnvironment} {m : Mark} {x : String} {ascription : Option TypeExpr}
      {body : Node} {t : Ty} {s s₁ : InferState} (ht : Runs (ascribedOrFresh ascription) s t s₁) :
      Enters g ⟨Γ, .lambda m x ascription body, s⟩ ⟨Γ.extend (x, .mono t), body, s₁⟩
  | function {Γ : TypeEnvironment} {m : Mark} {f a : Node} {s : InferState} :
      Enters g ⟨Γ, .application m f a, s⟩ ⟨Γ, f, s⟩
  | argument {Γ : TypeEnvironment} {m : Mark} {f a : Node} {typed : Node × Ty} {s s₁ : InferState}
      (hf : Runs (f.infer g Γ) s typed s₁) : Enters g ⟨Γ, .application m f a, s⟩ ⟨Γ, a, s₁⟩
  | value {Γ : TypeEnvironment} {m : Mark} {x : String} {ascription : Option TypeExpr}
      {value body : Node} {s : InferState} :
      Enters g ⟨Γ, .letIn m x ascription value body, s⟩ ⟨Γ, value, s⟩
  | letBody {Γ : TypeEnvironment} {m : Mark} {x : String} {ascription : Option TypeExpr}
      {value value' body : Node} {t : Ty} {earlier since : List Constraint} {s s₁ s₂ : InferState}
      (hvalue : Runs (value.infer g Γ) s (value', t) s₁) (ha : Agrees t m.position ascription s₁ s₂)
      (hcs : s₂.constraints.toList.splitAt s.constraints.size = (earlier, since)) :
      Enters g ⟨Γ, .letIn m x ascription value body, s⟩
        ⟨Γ.extend (x, g Γ earlier since t), body, s₂⟩
  | member {Γ : TypeEnvironment} {m m' : Mark} {f f' x : String} {pa ra : Option TypeExpr}
      {before behind before' : List Node} {value body : Node} {p r : Ty}
      {declared : List (String × Ty × Ty)} {s s₁ s₂ : InferState}
      (hdeclared : Runs (declareGroup (before ++ .letRecArm m' f x pa ra value :: behind)) s
        declared s₁)
      (hbefore : Runs (Node.inferGroup g (groupEnvironment Γ declared) before
        (declared.map Prod.snd)) s₁ before' s₂)
      (hp : declared[before.length]? = some (f', p, r)) :
      Enters g ⟨Γ, .letRec m (before ++ .letRecArm m' f x pa ra value :: behind) body, s⟩
        ⟨(groupEnvironment Γ declared).extend (x, .mono p), value, s₂⟩
  | letRecBody {Γ : TypeEnvironment} {m : Mark} {arms arms' : List Node} {body : Node}
      {declared : List (String × Ty × Ty)} {earlier since : List Constraint}
      {s s₁ s₂ : InferState} (hdeclared : Runs (declareGroup arms) s declared s₁)
      (harms : Runs (Node.inferGroup g (groupEnvironment Γ declared) arms
        (declared.map Prod.snd)) s₁ arms' s₂)
      (hcs : s₂.constraints.toList.splitAt s₁.constraints.size = (earlier, since)) :
      Enters g ⟨Γ, .letRec m arms body, s⟩
        ⟨Γ.extendAll (declared.map fun (f, p, r) => (f, g Γ earlier since (.function p r))), body,
          s₂⟩
  | condition {Γ : TypeEnvironment} {m : Mark} {c a b : Node} {s : InferState} :
      Enters g ⟨Γ, .conditional m c a b, s⟩ ⟨Γ, c, s⟩
  | thenBranch {Γ : TypeEnvironment} {m : Mark} {c c' a b : Node} {t : Ty} {s s₁ s₂ : InferState}
      (hc : Runs (c.infer g Γ) s (c', t) s₁) (ht : Runs (constrain t .bool c.position) s₁ () s₂) :
      Enters g ⟨Γ, .conditional m c a b, s⟩ ⟨Γ, a, s₂⟩
  | elseBranch {Γ : TypeEnvironment} {m : Mark} {c c' a b : Node} {t : Ty} {typed : Node × Ty}
      {s s₁ s₂ s₃ : InferState} (hc : Runs (c.infer g Γ) s (c', t) s₁)
      (ht : Runs (constrain t .bool c.position) s₁ () s₂) (ha : Runs (a.infer g Γ) s₂ typed s₃) :
      Enters g ⟨Γ, .conditional m c a b, s⟩ ⟨Γ, b, s₃⟩
  | left {Γ : TypeEnvironment} {m : Mark} {o : BinaryOperator} {l r : Node} {s : InferState} :
      Enters g ⟨Γ, .binary m o l r, s⟩ ⟨Γ, l, s⟩
  | right {Γ : TypeEnvironment} {m : Mark} {o : BinaryOperator} {l r : Node} {typed : Node × Ty}
      {s s₁ : InferState} (hl : Runs (l.infer g Γ) s typed s₁) :
      Enters g ⟨Γ, .binary m o l r, s⟩ ⟨Γ, r, s₁⟩
  | operand {Γ : TypeEnvironment} {m : Mark} {o : UnaryOperator} {e : Node} {s : InferState} :
      Enters g ⟨Γ, .unary m o e, s⟩ ⟨Γ, e, s⟩
  | statement {Γ : TypeEnvironment} {m : Mark} {before behind : List Node} {e : Node}
      {typed : List Node × List Ty} {s s₁ : InferState}
      (hbefore : Runs (Node.inferAll g Γ before) s typed s₁) :
      Enters g ⟨Γ, .sequence m (before ++ e :: behind), s⟩ ⟨Γ, e, s₁⟩
  | element {Γ : TypeEnvironment} {m : Mark} {before behind : List Node} {e : Node}
      {typed : List Node × List Ty} {s s₁ : InferState}
      (hbefore : Runs (Node.inferAll g Γ before) s typed s₁) :
      Enters g ⟨Γ, .tuple m (before ++ e :: behind), s⟩ ⟨Γ, e, s₁⟩
  | target {Γ : TypeEnvironment} {m : Mark} {index : Nat} {arity : Option Nat} {e : Node}
      {s : InferState} : Enters g ⟨Γ, .projection m index arity e, s⟩ ⟨Γ, e, s⟩
  | dataTypeBody {Γ Γ' : TypeEnvironment} {m : Mark} {d : String} {cs cs' : List Node} {body : Node}
      {s s₁ : InferState} (hcs : Runs (declareConstructors d Γ cs) s (cs', Γ') s₁) :
      Enters g ⟨Γ, .dataType m d cs body, s⟩ ⟨Γ', body, s₁⟩
  | scrutinee {Γ : TypeEnvironment} {m : Mark} {e : Node} {arms : List Node} {s : InferState} :
      Enters g ⟨Γ, .matchWith m e arms, s⟩ ⟨Γ, e, s⟩
  | arm {Γ : TypeEnvironment} {m m' : Mark} {e e' p p' body : Node}
      {before behind before' : List Node} {t r u : Ty} {bindings : List (String × Binding)}
      {s s₁ s₂ s₃ s₄ s₅ : InferState} (he : Runs (e.infer g Γ) s (e', t) s₁)
      (hr : Runs fresh s₁ r s₂) (hbefore : Runs (Node.inferArms g Γ t r before) s₂ before' s₃)
      (hp : Runs (inferPattern p) s₃ (p', u, bindings) s₄)
      (hu : Runs (constrain t u p.position) s₄ () s₅) :
      Enters g ⟨Γ, .matchWith m e (before ++ .matchArm m' p body :: behind), s⟩
        ⟨Γ.extendAll bindings, body, s₅⟩

/-- Inference of a tree goes on, step by step, to a tree anywhere in it. -/
abbrev Comes (g : Generalizer) : Site → Site → Prop := Relation.ReflTransGen (Enters g)

/-- **Where a step of inference goes on**, the solution is up to date if it was before. -/
theorem Enters.upToDate {g : Generalizer} {a b : Site} :
    Enters g a b → a.state.UpToDate → b.state.UpToDate
  | .program, h | .function, h | .value, h | .condition, h | .left, h | .operand, h | .target, h
  | .scrutinee, h => h
  | .lambdaBody ht, h => ascribedOrFresh_keeps.run h ht
  | .argument hf, h => (Node.infer_keeps _).run h hf
  | .letBody hvalue ha _, h => agrees_keeps ha ((Node.infer_keeps _).run h hvalue)
  | .member hdeclared hbefore _, h =>
    (Node.inferGroup_keeps _ _).run (declareGroup_keeps.run h hdeclared) hbefore
  | .letRecBody hdeclared harms _, h =>
    (Node.inferGroup_keeps _ _).run (declareGroup_keeps.run h hdeclared) harms
  | .thenBranch hc ht, h => constrain_keeps.run ((Node.infer_keeps _).run h hc) ht
  | .elseBranch hc ht ha, h =>
    (Node.infer_keeps _).run (constrain_keeps.run ((Node.infer_keeps _).run h hc) ht) ha
  | .right hl, h => (Node.infer_keeps _).run h hl
  | .statement hbefore, h | .element hbefore, h => (Node.inferAll_keeps _).run h hbefore
  | .dataTypeBody hcs, h => declareConstructors_keeps.run h hcs
  | .arm he hr hbefore hp hu, h =>
    have h₂ := fresh_keeps.run ((Node.infer_keeps _).run h he) hr
    have h₄ := (inferPattern_keeps _).run ((Node.inferArms_keeps _).run h₂ hbefore) hp
    constrain_keeps.run h₄ hu

/-- **Wherever inference comes to**, the solution is up to date if it was at the start. -/
theorem Comes.upToDate {g : Generalizer} {a b : Site} (h : Comes g a b) (ha : a.state.UpToDate) :
    b.state.UpToDate := by
  induction h with
  | refl => exact ha
  | tail _ hstep ih => exact hstep.upToDate ih

end Types

/-! ## 7. Errors behind the place -/

section

variable {g : Generalizer} {Γ : TypeEnvironment} {e : CompileError}

theorem Node.inferAll_fails {n : Node} {behind : List Node} : ∀ {before : List Node}
    {typed : List Node × List Ty} {s s₁ : InferState},
    Runs (Node.inferAll g Γ before) s typed s₁ → Fails (n.infer g Γ) s₁ e →
      Fails (Node.inferAll g Γ (before ++ n :: behind)) s e
  | [], _, _, _, hbefore, hn => by
    obtain ⟨-, rfl⟩ := runs_pure.1 hbefore
    exact hn.bind
  | b :: before, _, _, _, hbefore, hn => by
    obtain ⟨⟨b', t⟩, s₁, hb, hbefore⟩ := runs_bind.1 hbefore
    obtain ⟨more, s₂, hmore, hpure⟩ := runs_bind.1 hbefore
    obtain ⟨-, rfl⟩ := runs_pure.1 hpure
    exact hb.fails_behind (Fails.bind (Node.inferAll_fails hmore hn))

theorem Node.inferArms_fails {t r u : Ty} {m : Mark} {p p' body : Node} {behind : List Node}
    {bindings : List (String × Binding)} : ∀ {before before' : List Node}
    {s s₁ s₂ s₃ : InferState}, Runs (Node.inferArms g Γ t r before) s before' s₁ →
      Runs (inferPattern p) s₁ (p', u, bindings) s₂ →
      Runs (constrain t u p.position) s₂ () s₃ →
      Fails (body.infer g (Γ.extendAll bindings)) s₃ e →
        Fails (Node.inferArms g Γ t r (before ++ .matchArm m p body :: behind)) s e
  | [], _, _, _, _, _, hbefore, hp, hu, hbody => by
    obtain ⟨-, rfl⟩ := runs_pure.1 hbefore
    exact hp.fails_behind (hu.fails_behind hbody.bind)
  | b :: before, _, _, _, _, _, hbefore, hp, hu, hbody => by
    cases b with
    | matchArm m' q other =>
      simp only [Node.inferArms, runs_bind, runs_pure] at hbefore
      obtain ⟨⟨q', v, more⟩, _, hq, ⟨⟩, _, hv, ⟨other', w⟩, _, hother, ⟨⟩, _, hw, rest, _, hrest,
        -, rfl⟩ := hbefore
      exact hq.fails_behind (hv.fails_behind (hother.fails_behind (hw.fails_behind
        (Fails.bind (Node.inferArms_fails hrest hp hu hbody)))))
    | _ => exact absurd hbefore runs_throw

theorem Node.inferGroup_fails {m : Mark} {f f' x : String} {pa ra : Option TypeExpr} {body : Node}
    {p r : Ty} {behind : List Node} : ∀ {before before' : List Node}
    {declared : List (String × Ty × Ty)} {s₀ s₁ s s₂ : InferState},
    Runs (declareGroup (before ++ .letRecArm m f x pa ra body :: behind)) s₀ declared s₁ →
      Runs (Node.inferGroup g Γ before (declared.map Prod.snd)) s before' s₂ →
      declared[before.length]? = some (f', p, r) →
      Fails (body.infer g (Γ.extend (x, .mono p))) s₂ e →
        Fails (Node.inferGroup g Γ (before ++ .letRecArm m f x pa ra body :: behind)
          (declared.map Prod.snd)) s e
  | [], _, [], _, _, _, _, _, _, hp, _ => nomatch hp
  | [], _, _ :: _, _, _, _, _, _, hbefore, hp, hbody => by
    obtain ⟨-, rfl⟩ := runs_pure.1 hbefore
    cases hp
    exact hbody.bind
  | b :: before, _, declared, _, _, _, _, hdeclared, hbefore, hp, hbody => by
    cases b with
    | letRecArm m' g' y pa' ra' other =>
      simp only [List.cons_append, declareGroup, runs_bind, runs_pure] at hdeclared
      obtain ⟨q, _, _, t, _, _, more, _, hmore, rfl, -⟩ := hdeclared
      simp only [List.map_cons, Node.inferGroup, runs_bind, runs_pure] at hbefore
      obtain ⟨⟨other', u⟩, _, hother, ⟨⟩, _, hu, rest, _, hrest, -, rfl⟩ := hbefore
      exact hother.fails_behind (hu.fails_behind
        (Fails.bind (Node.inferGroup_fails hmore hrest hp hbody)))
    | _ => exact absurd hdeclared runs_throw

theorem Node.infer_letIn_fails {m : Mark} {x : String} {ascription : Option TypeExpr}
    {value value' body : Node} {t : Ty} {earlier since : List Constraint} {s s₁ s₂ : InferState}
    (hvalue : Runs (value.infer g Γ) s (value', t) s₁) (ha : Agrees t m.position ascription s₁ s₂)
    (hcs : s₂.constraints.toList.splitAt s.constraints.size = (earlier, since))
    (hbody : Fails (body.infer g (Γ.extend (x, g Γ earlier since t))) s₂ e) :
    Fails ((Node.letIn m x ascription value body).infer g Γ) s e := by
  have haround := (runs_constraintsAround.2 ⟨hcs, rfl⟩ : Runs (constraintsAround _) s₂ _ s₂)
  refine Runs.fails_behind (runs_constraintCount.2 ⟨rfl, rfl⟩) (hvalue.fails_behind ?_)
  cases ascription with
  | none =>
    obtain rfl := ha
    exact haround.fails_behind hbody.bind
  | some a => exact ha.fails_behind (haround.fails_behind hbody.bind)

/-- **An error where a step of inference goes on** is its error. -/
theorem Types.Enters.fails {a b : Site} : Enters g a b →
    Fails (b.tree.infer g b.environment) b.state e → Fails (a.tree.infer g a.environment) a.state e
  | .program, h | .function, h | .condition, h | .left, h | .operand, h | .target, h
  | .scrutinee, h => h.bind
  | .lambdaBody ht, h => ht.fails_behind h.bind
  | .argument hf, h => hf.fails_behind h.bind
  | .value, h => (runs_constraintCount.2 ⟨rfl, rfl⟩).fails_behind h.bind
  | .letBody hvalue ha hcs, h => Node.infer_letIn_fails hvalue ha hcs h
  | .member hdeclared hbefore hp, h =>
    hdeclared.fails_behind ((runs_constraintCount.2 ⟨rfl, rfl⟩).fails_behind
      (Fails.bind (Node.inferGroup_fails hdeclared hbefore hp h)))
  | .letRecBody hdeclared harms hcs, h =>
    hdeclared.fails_behind ((runs_constraintCount.2 ⟨rfl, rfl⟩).fails_behind
      (harms.fails_behind ((runs_constraintsAround.2 ⟨hcs, rfl⟩).fails_behind h.bind)))
  | .thenBranch hc ht, h => hc.fails_behind (ht.fails_behind h.bind)
  | .elseBranch hc ht ha, h =>
    hc.fails_behind (ht.fails_behind (ha.fails_behind h.bind))
  | .right hl, h => hl.fails_behind h.bind
  | .statement hbefore, h | .element hbefore, h => Fails.bind (Node.inferAll_fails hbefore h)
  | .dataTypeBody hcs, h => hcs.fails_behind h.bind
  | .arm he hr hbefore hp hu, h =>
    he.fails_behind (hr.fails_behind (Fails.bind (Node.inferArms_fails hbefore hp hu h)))

/-- **An error where inference comes to** is the error of the whole. -/
theorem Types.Comes.fails {a b : Site} (h : Comes g a b)
    (hb : Fails (b.tree.infer g b.environment) b.state e) :
    Fails (a.tree.infer g a.environment) a.state e := by
  induction h using Relation.ReflTransGen.head_induction_on with
  | refl => exact hb
  | head hstep _ ih => exact hstep.fails ih

/-- What solving on the way fails with, a projection fails with. -/
theorem Node.infer_projection_fails {m : Mark} {index : Nat} {arity : Option Nat}
    {target target' : Node} {t : Ty} {s s' : InferState}
    (htarget : Runs (target.infer g Γ) s (target', t) s') (h : Fails (resolveNow t) s' e) :
    Fails ((Node.projection m index arity target).infer g Γ) s e :=
  htarget.fails_behind h.bind

end

/-! ## 8. Solving on the way is solving from the start -/

/-- **Solving in parts is solving at once.** Solving equations and extending the solution by others
    gives what solving all of them gives, a solution or an error. So wherever inference of a program
    comes to a projection, in a run that succeeds or in one that fails later on, the type that it
    solves on the way for the target is the one that the solution of all equations collected by then
    gives; and it fails if and only if there is no such solution, with the error that says so, which
    is then the error of the whole. -/
theorem resolveNow_eq_solve (g : Generalizer) (n : Node) :
    (∀ cs ds : List Constraint, solve (cs ++ ds) = solve cs >>= fun s => s.extend ds) ∧
    ∀ {Γ : TypeEnvironment} {m : Mark} {index : Nat} {arity : Option Nat} {target target' : Node}
      {t : Ty} {s s' : InferState},
      Comes g ⟨.empty, n, .empty⟩ ⟨Γ, .projection m index arity target, s⟩ →
      Runs (target.infer g Γ) s (target', t) s' →
        (resolveNow t).run s' =
          (match solve s'.constraints.toList with
          | .ok σ => .ok (σ.apply t) { s' with solved := σ, solvedUntil := s'.constraints.size }
          | .error e => .error e s') ∧
        ∀ e, solve s'.constraints.toList = .error e → n.inferTypesBy g = .error e := by
  refine ⟨solve_append, @fun Γ m index arity target target' t s s' hcomes htarget => ?_⟩
  have hbehind := Comes.upToDate hcomes .empty
  have hrun := ((Node.infer_keeps _).run hbehind htarget).resolveNow_run
  refine ⟨hrun _, fun e he => ?_⟩
  have hresolve : Fails (resolveNow t) s' e := ⟨s', by rw [hrun, he]⟩
  obtain ⟨s₁, hfails⟩ := Comes.fails hcomes (Node.infer_projection_fails htarget hresolve)
  rw [Node.inferTypesBy, hfails]

/-- A function that makes a pair, applied to a number. -/
def appliedPair : Node :=
  let m : Mark := ⟨⟨1, 1⟩, none⟩
  .application m (.lambda m "x" none (.tuple m [.reference m "x", .literal m (.integer 1)]))
    (.literal m (.integer 2))

/-- The type of the pair is a variable when its first element is asked for; the equation that the
    application has added by then makes it a pair of integers. -/
theorem resolveNow_eq_solve_appliedPair : ∃ typed t s' s'',
    Runs (appliedPair.infer generalize .empty) .empty (typed, t) s' ∧ t = .var (.ofNat 1) ∧
      (resolveNow t).run s' = .ok (.tuple [.int, .int]) s'' := by
  have hcomes : Comes generalize
      ⟨.empty, .top ⟨⟨1, 1⟩, none⟩ (.projection ⟨⟨1, 1⟩, none⟩ 0 none appliedPair), .empty⟩
      ⟨.empty, .projection ⟨⟨1, 1⟩, none⟩ 0 none appliedPair, .empty⟩ := .single .program
  obtain ⟨typed, s', hrun, hcs⟩ : ∃ typed s',
      Runs (appliedPair.infer generalize .empty) .empty (typed, .var (.ofNat 1)) s' ∧
        s'.constraints.toList = [⟨.function (.var (.ofNat 0)) (.tuple [.var (.ofNat 0), .int]),
          .function .int (.var (.ofNat 1)), ⟨1, 1⟩⟩] := ⟨_, _, rfl, rfl⟩
  have hsolve : solve s'.constraints.toList =
      .ok ⟨[(.ofNat 1, .tuple [.int, .int]), (.ofNat 0, .int)]⟩ := by
    rw [hcs]
    cbv
  have hresolve := ((resolveNow_eq_solve generalize _).2 hcomes hrun).1
  rw [hsolve] at hresolve
  exact ⟨typed, _, s', _, hrun, rfl, hresolve⟩

end ClosureML
