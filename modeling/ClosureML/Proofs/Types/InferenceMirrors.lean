import ClosureML.Proofs.Syntax.Mirrors
import ClosureML.Proofs.Types.UnificationCorrect
import ClosureML.Types.Inference
import Mathlib.Logic.Relator

/-!
# Inferring types in trees that mirror each other

Inference looks at names only to tell whether they are the same, and at positions only for its
errors and to hand them on. So in trees that are the same up to positions and up to names it gives
the same types, or meets an error of the same kind at positions that stand for each other.

* `Constraint.Mirrors`, `Binding.Mirrors`, `InferState.Mirrors`: equations, what names are bound to,
  and what inference has made so far, which are the same up to positions;
* `Types.BindingsMirror`: bindings of names that stand for each other.

Main statements: `unifyFrom_mirrors`, `Node.Mirrors.infer`, `Node.Mirrors.inferTypes` and
`Typing.Mirrors.unify`.
-/

namespace ClosureML

open ClosureML.Types
open Node (Mirrors MirrorsAll)

variable {N : String → String → Prop} {R : Position → Position → Prop}

/-! ## 1. Equations and bindings -/

/-- Equations that mirror each other: the types are the same, and `R` relates the positions. -/
structure Constraint.Mirrors (R : Position → Position → Prop) (c c' : Constraint) : Prop where
  left : c.left = c'.left
  right : c.right = c'.right
  position : R c.position c'.position

/-- Lists of equations that mirror each other. -/
abbrev ConstraintsMirror (R : Position → Position → Prop) :
    List Constraint → List Constraint → Prop := List.Forall₂ (Constraint.Mirrors R)

/-- Bindings that are the same up to the positions of equations. -/
inductive Binding.Mirrors (R : Position → Position → Prop) : Binding → Binding → Prop where
  | mono {t : Ty} : Binding.Mirrors R (.mono t) (.mono t)
  | poly {quantified : VarSet} {t : Ty} {cs cs' : List Constraint}
      (hcs : ConstraintsMirror R cs cs') :
      Binding.Mirrors R (.poly ⟨quantified, t, cs⟩) (.poly ⟨quantified, t, cs'⟩)

section

variable {c c' : Constraint} {cs cs' ds ds' : List Constraint}

theorem Constraint.Mirrors.substitute (h : c.Mirrors R c') (σ : TypeVar → Option Ty) :
    (c.substitute σ).Mirrors R (c'.substitute σ) :=
  ⟨congrArg (Ty.substitute σ) h.left, congrArg (Ty.substitute σ) h.right, h.position⟩

theorem Constraint.Mirrors.occurrences_eq (h : c.Mirrors R c') :
    c.occurrences = c'.occurrences := by
  rw [occurrences, occurrences, h.left, h.right]

theorem ConstraintsMirror.substitute (h : ConstraintsMirror R cs cs') (σ : TypeVar → Option Ty) :
    ConstraintsMirror R (cs.map (Constraint.substitute σ)) (cs'.map (Constraint.substitute σ)) :=
  List.forall₂_map_left_iff.2 (List.forall₂_map_right_iff.2 (h.imp fun _ _ hc => hc.substitute σ))

theorem ConstraintsMirror.occurrences_eq (h : ConstraintsMirror R cs cs') :
    cs.flatMap Constraint.occurrences = cs'.flatMap Constraint.occurrences := by
  induction h with
  | nil => rfl
  | cons hc _ ih => rw [List.flatMap_cons, List.flatMap_cons, hc.occurrences_eq, ih]

theorem ConstraintsMirror.filter {f : Constraint → Bool}
    (hf : ∀ c c', Constraint.Mirrors R c c' → f c = f c') (h : ConstraintsMirror R cs cs') :
    ConstraintsMirror R (cs.filter f) (cs'.filter f) := by
  induction h with
  | nil => exact .nil
  | @cons c c' _ _ hc _ ih =>
    rw [List.filter_cons, List.filter_cons, hf c c' hc]
    split
    · exact .cons hc ih
    · exact ih

theorem ConstraintsMirror.append (h : ConstraintsMirror R cs cs')
    (h' : ConstraintsMirror R ds ds') :
    ConstraintsMirror R (cs ++ ds) (cs' ++ ds') := List.rel_append h h'

/-- A list that mirrors one that is not empty. -/
theorem ConstraintsMirror.of_cons {l r : Ty} {p : Position}
    (h : ConstraintsMirror R (⟨l, r, p⟩ :: cs) cs') :
    ∃ p' ds, cs' = ⟨l, r, p'⟩ :: ds ∧ R p p' ∧ ConstraintsMirror R cs ds := by
  cases h with | @cons _ c' _ ds hc hcs => ?_
  obtain ⟨l', r', p'⟩ := c'
  obtain ⟨rfl, rfl, hp⟩ := hc
  exact ⟨p', ds, rfl, hp, hcs⟩

theorem pairwise_mirrors {p p' : Position} (hp : R p p') (ts us : List Ty) :
    ConstraintsMirror R (pairwise p ts us) (pairwise p' ts us) := by
  induction ts generalizing us with
  | nil => exact .nil
  | cons t ts ih =>
    cases us with
    | nil => exact .nil
    | cons u us => exact .cons ⟨rfl, rfl, hp⟩ (ih us)

end

theorem Binding.Mirrors.freeVariables_eq {b b' : Binding} (h : b.Mirrors R b') :
    b.freeVariables = b'.freeVariables := by
  cases h with
  | mono => rfl
  | poly hcs => simp only [freeVariables, Schema.freeVariables, hcs.occurrences_eq]

/-- **Equations that mirror each other have the same solution**, or meet errors that mirror each
    other. -/
theorem unifyFrom_mirrors {s : Substitution} {cs cs' : List Constraint}
    (h : ConstraintsMirror R cs cs') :
    Together Eq (CompileError.Mirrors R) (unifyFrom s cs) (unifyFrom s cs') := by
  -- the two lists differ in positions only, which decide no case
  fun_induction unifyFrom s cs generalizing cs' with
  | case1 s =>
    cases h
    rw [unifyFrom]
    exact .ok rfl
  | case2 s t position pending ih =>
    obtain ⟨p', pending', rfl, hp, hpending⟩ := ConstraintsMirror.of_cons h
    rw [unifyFrom_trivial]
    exact ih hpending
  | case3 s position pending p q q₁ q₂ hne ih =>
    obtain ⟨p', pending', rfl, hp, hpending⟩ := ConstraintsMirror.of_cons h
    rw [unifyFrom, if_neg hne]
    exact ih (.cons ⟨rfl, rfl, hp⟩ (.cons ⟨rfl, rfl, hp⟩ hpending))
  | case4 s position pending ts us hlength hne ih =>
    obtain ⟨p', pending', rfl, hp, hpending⟩ := ConstraintsMirror.of_cons h
    rw [unifyFrom, if_neg hne, if_pos hlength]
    exact ih ((pairwise_mirrors hp ts us).append hpending)
  | case5 s position pending ts us hlength hne =>
    obtain ⟨p', pending', rfl, hp, hpending⟩ := ConstraintsMirror.of_cons h
    rw [unifyFrom, if_neg hne, if_neg hlength]
    exact .error ⟨rfl, hp⟩
  | case6 s position pending v t hoccurs hne =>
    obtain ⟨p', pending', rfl, hp, hpending⟩ := ConstraintsMirror.of_cons h
    rw [unifyFrom, if_neg hne, if_pos hoccurs]
    exact .error ⟨rfl, hp⟩
  | case7 s position pending v t hoccurs hne ih =>
    obtain ⟨p', pending', rfl, hp, hpending⟩ := ConstraintsMirror.of_cons h
    rw [unifyFrom, if_neg hne, if_neg hoccurs]
    exact ih (ConstraintsMirror.substitute hpending _)
  | case8 s position pending t v hnotvar hoccurs hne =>
    obtain ⟨p', pending', rfl, hp, hpending⟩ := ConstraintsMirror.of_cons h
    rw [unifyFrom, if_neg hne, if_pos hoccurs]
    · exact .error ⟨rfl, hp⟩
    · exact hnotvar
  | case9 s position pending t v hnotvar hoccurs hne ih =>
    obtain ⟨p', pending', rfl, hp, hpending⟩ := ConstraintsMirror.of_cons h
    rw [unifyFrom, if_neg hne, if_neg hoccurs]
    · exact ih (ConstraintsMirror.substitute hpending _)
    · exact hnotvar
  | case10 s position pending t u hfunction htuple hleft hright hne =>
    obtain ⟨p', pending', rfl, hp, hpending⟩ := ConstraintsMirror.of_cons h
    rw [unifyFrom, if_neg hne]
    · exact .error ⟨rfl, hp⟩
    all_goals assumption

/-! ## 2. What inference carries along -/

namespace Types

/-- Bindings of names that stand for each other, which are the same up to positions. -/
abbrev BindingsMirror (N : String → String → Prop) (R : Position → Position → Prop) :
    List (String × Binding) → List (String × Binding) → Prop :=
  List.Forall₂ (Beside N (Binding.Mirrors R))

/-- Environments that mirror each other. -/
def EnvironmentMirrors (N : String → String → Prop) (R : Position → Position → Prop)
    (Γ Γ' : TypeEnvironment) : Prop := BindingsMirror N R Γ.toList Γ'.toList

/-- What inference has made so far is the same up to the positions of equations. -/
structure InferState.Mirrors (R : Position → Position → Prop) (s s' : InferState) : Prop where
  nextVariable : s.nextVariable = s'.nextVariable
  constraints : ConstraintsMirror R s.constraints.toList s'.constraints.toList
  signatures : s.signatures = s'.signatures
  solved : s.solved = s'.solved
  solvedUntil : s.solvedUntil = s'.solvedUntil

theorem InferState.mirrors_empty : InferState.empty.Mirrors R .empty := ⟨rfl, .nil, rfl, rfl, rfl⟩

theorem EnvironmentMirrors.extend {Γ Γ' : TypeEnvironment} (h : EnvironmentMirrors N R Γ Γ')
    {x x' : String} {b b' : Binding} (hx : N x x') (hb : b.Mirrors R b') :
    EnvironmentMirrors N R (Γ.extend (x, b)) (Γ'.extend (x', b')) := .cons ⟨hx, hb⟩ h

theorem EnvironmentMirrors.extendAll {Γ Γ' : TypeEnvironment} (h : EnvironmentMirrors N R Γ Γ')
    {bindings bindings' : List (String × Binding)}
    (hbindings : BindingsMirror N R bindings bindings') :
    EnvironmentMirrors N R (Γ.extendAll bindings) (Γ'.extendAll bindings') := by
  rw [EnvironmentMirrors, Scope.toList_extendAll, Scope.toList_extendAll]
  exact List.rel_append (List.rel_reverse hbindings) h

/-- A name that stands for itself only is the only one that stands for it. -/
theorem biUnique_eq : Relator.BiUnique (Eq : String → String → Prop) :=
  ⟨fun _ _ _ h h' => h.trans h'.symm, fun _ _ _ h h' => h.symm.trans h'⟩

/-- Names that stand for each other are bound to the same, when a name stands for one name only. -/
theorem EnvironmentMirrors.lookup? (hN : Relator.BiUnique N) {Γ Γ' : TypeEnvironment}
    (h : EnvironmentMirrors N R Γ Γ') {x x' : String} (hx : N x x') :
    Option.Rel (Binding.Mirrors R) (Types.lookup? Γ x) (Types.lookup? Γ' x') := by
  have hlists : ∀ {bs bs' : List (String × Binding)}, BindingsMirror N R bs bs' →
      Option.Rel (Binding.Mirrors R)
        (bs.findSome? fun entry => if entry.1 = x then some entry.2 else none)
        (bs'.findSome? fun entry => if entry.1 = x' then some entry.2 else none) := by
    intro bs bs' hbs
    induction hbs with
    | nil => exact .none
    | @cons entry entry' _ _ hentry _ ih =>
      obtain ⟨y, b⟩ := entry
      obtain ⟨y', b'⟩ := entry'
      obtain ⟨hy, hb⟩ := hentry
      have hsame : y = x ↔ y' = x' :=
        ⟨fun e => hN.2 hy (e ▸ hx), fun e => hN.1 hy (e ▸ hx)⟩
      simp only [List.findSome?_cons]
      by_cases he : y = x
      · rw [if_pos he, if_pos (hsame.1 he)]
        exact .some hb
      · rw [if_neg he, if_neg fun e => he (hsame.2 e)]
        exact ih
  exact hlists h

theorem EnvironmentMirrors.environmentVariables_eq {Γ Γ' : TypeEnvironment}
    (h : EnvironmentMirrors N R Γ Γ') : environmentVariables Γ = environmentVariables Γ' := by
  have hlists : ∀ {bs bs' : List (String × Binding)}, BindingsMirror N R bs bs' →
      bs.foldr (fun entry vs => entry.2.freeVariables.union vs) [] =
        bs'.foldr (fun entry vs => entry.2.freeVariables.union vs) [] := by
    intro bs bs' hbs
    induction hbs with
    | nil => rfl
    | @cons entry entry' _ _ hentry _ ih =>
      rw [List.foldr_cons, List.foldr_cons, ih, hentry.2.freeVariables_eq]
  exact hlists h

/-- Names are generalised alike. -/
theorem generalize_mirrors {Γ Γ' : TypeEnvironment} (h : EnvironmentMirrors N R Γ Γ')
    {earlier earlier' since since' : List Constraint} (hsince : ConstraintsMirror R since since')
    (t : Ty) : (generalize Γ earlier since t).Mirrors R (generalize Γ' earlier' since' t) := by
  unfold generalize generalizeOver
  rw [h.environmentVariables_eq, ConstraintsMirror.occurrences_eq hsince]
  dsimp only
  split
  · exact .mono
  · refine .poly (ConstraintsMirror.filter (fun c c' hc => ?_) hsince)
    rw [hc.occurrences_eq]

/-! ## 3. Steps -/

/-- Two runs of inference, from states that mirror each other. -/
abbrev InfersAlike {α : Type} (R : Position → Position → Prop) (Q : α → α → Prop)
    (x x' : Infer α) : Prop :=
  InStep (InferState.Mirrors R) Q (CompileError.Mirrors R) x x'

theorem fail_mirrors {α : Type} {Q : α → α → Prop} {cause cause' : Cause} {p p' : Position}
    (hkind : cause.kind = cause'.kind) (hp : R p p') :
    InfersAlike R Q (fail cause p) (fail cause' p') := .throw ⟨hkind, hp⟩

theorem fresh_mirrors : InfersAlike R Eq fresh fresh :=
  .modifyGet fun _ _ hs => ⟨⟨congrArg (· + 1) hs.nextVariable, hs.constraints, hs.signatures,
    hs.solved, hs.solvedUntil⟩, by rw [hs.nextVariable]⟩

theorem constrain_mirrors {t u : Ty} {p p' : Position} (hp : R p p') :
    InfersAlike R (fun _ _ => True) (constrain t u p) (constrain t u p') := by
  unfold constrain
  dsimp only
  by_cases h : t = u
  · have htrivial (q : Position) : Constraint.isTrivial ⟨t, u, q⟩ = true := decide_eq_true h
    rw [if_pos (htrivial p), if_pos (htrivial p')]
    exact .pure trivial
  · have htrivial (q : Position) : ¬ Constraint.isTrivial ⟨t, u, q⟩ = true :=
      fun h' => h (of_decide_eq_true h')
    rw [if_neg (htrivial p), if_neg (htrivial p')]
    refine .modify fun s s' hs => ⟨hs.nextVariable, ?_, hs.signatures, hs.solved, hs.solvedUntil⟩
    rw [Array.toList_push, Array.toList_push]
    exact List.rel_append hs.constraints (.cons ⟨rfl, rfl, hp⟩ .nil)

theorem constraintCount_mirrors : InfersAlike R Eq constraintCount constraintCount :=
  .bind .get fun _ _ hs => .pure hs.constraints.length_eq

theorem constraintsAround_mirrors {start : Nat} :
    InfersAlike R (Beside (ConstraintsMirror R) (ConstraintsMirror R)) (constraintsAround start)
      (constraintsAround start) := by
  refine .bind .get fun s s' hs => .pure ?_
  rw [List.splitAt_eq, List.splitAt_eq]
  exact ⟨List.forall₂_take start hs.constraints, List.forall₂_drop start hs.constraints⟩

theorem ascribedOrFresh_mirrors : ∀ {ascription : Option TypeExpr},
    InfersAlike R Eq (ascribedOrFresh ascription) (ascribedOrFresh ascription)
  | some _ => .pure rfl
  | none => fresh_mirrors

theorem freshCopies_mirrors : ∀ {vs : VarSet}, InfersAlike R Eq (freshCopies vs) (freshCopies vs)
  | [] => .pure rfl
  | _ :: _ => .bind fresh_mirrors fun _ _ h => h ▸ .bind freshCopies_mirrors fun _ _ h =>
    h ▸ .pure rfl

theorem instantiate_mirrors {quantified : VarSet} {t : Ty} {cs cs' : List Constraint}
    (h : ConstraintsMirror R cs cs') :
    InfersAlike R Eq (instantiate ⟨quantified, t, cs⟩) (instantiate ⟨quantified, t, cs'⟩) := by
  refine .bind freshCopies_mirrors ?_
  rintro copies _ rfl
  refine .bind (.modify fun s s' hs => ?_) fun _ _ _ => .pure rfl
  refine ⟨hs.nextVariable, ?_, hs.signatures, hs.solved, hs.solvedUntil⟩
  rw [Array.toList_appendList, Array.toList_appendList]
  exact List.rel_append hs.constraints (ConstraintsMirror.substitute h _)

theorem resolveNow_mirrors {t : Ty} : InfersAlike R Eq (resolveNow t) (resolveNow t) := by
  refine .bind .get fun s s' hs => ?_
  have hsolved : Together Eq (CompileError.Mirrors R)
      (s.solved.extend (s.constraints.toList.drop s.solvedUntil))
      (s'.solved.extend (s'.constraints.toList.drop s'.solvedUntil)) := by
    rw [← hs.solved, ← hs.solvedUntil]
    exact unifyFrom_mirrors (ConstraintsMirror.substitute (List.forall₂_drop _ hs.constraints) _)
  revert hsolved
  generalize s.solved.extend (s.constraints.toList.drop s.solvedUntil) = r
  generalize s'.solved.extend (s'.constraints.toList.drop s'.solvedUntil) = r'
  rintro (@⟨σ, _, rfl⟩ | he)
  · exact .bind (.set ⟨hs.nextVariable, hs.constraints, hs.signatures, rfl,
      hs.constraints.length_eq⟩) fun _ _ _ => .pure rfl
  · exact .throw he

/-! ## 4. Declarations and patterns -/

theorem typed_mirrors {m m' : Mark} (h : m.Mirrors R m') (t : Ty) :
    (typed m t).Mirrors R (typed m' t) := ⟨h.position, rfl⟩

theorem declareConstructors_mirrors {d : String} : ∀ {cs cs' : List Node} {Γ Γ' : TypeEnvironment},
    MirrorsAll N R cs cs' → EnvironmentMirrors N R Γ Γ' →
      InfersAlike R (Beside (MirrorsAll N R) (EnvironmentMirrors N R))
        (Types.declareConstructors d Γ cs) (Types.declareConstructors d Γ' cs')
  | _, _, _, _, .nil, hΓ => .pure ⟨.nil, hΓ⟩
  | _, _, _, _, .cons hc hcs, hΓ => by
    have hposition := hc.position
    cases hc with
    | dataConstructor hm hc =>
      refine .bind (.modify fun s s' hs => ?_) fun _ _ _ => ?_
      · exact ⟨hs.nextVariable, hs.constraints, congrArg (List.cons _) hs.signatures, hs.solved,
          hs.solvedUntil⟩
      refine .bind (declareConstructors_mirrors hcs (hΓ.extend hc .mono)) ?_
      rintro ⟨more, inner⟩ ⟨more', inner'⟩ ⟨hmore, hinner⟩
      exact .pure ⟨.cons (.dataConstructor (typed_mirrors hm _) hc) hmore, hinner⟩
    | _ => exact fail_mirrors rfl hposition

theorem declareGroup_mirrors {arms arms' : List Node} (h : MirrorsAll N R arms arms') :
    InfersAlike R (List.Forall₂ (Beside N Eq)) (declareGroup arms) (declareGroup arms') := by
  induction arms generalizing arms' with
  | nil =>
    cases h
    exact .pure .nil
  | cons arm rest ih =>
    obtain _ | ⟨harm, harms⟩ := h
    have hposition := harm.position
    cases harm with
    | letRecArm hm hf =>
      refine .bind ascribedOrFresh_mirrors ?_
      rintro parameter _ rfl
      refine .bind ascribedOrFresh_mirrors ?_
      rintro result _ rfl
      exact .bind (ih harms) fun _ _ hmore => .pure (.cons ⟨hf, rfl⟩ hmore)
    | _ => exact fail_mirrors rfl hposition

/-- Names that are declared alike are bound alike. -/
theorem declared_mirrors {declared declared' : List (String × Ty × Ty)} {b b' : Ty → Ty → Binding}
    (h : List.Forall₂ (Beside N Eq) declared declared') (hb : ∀ t u, (b t u).Mirrors R (b' t u)) :
    BindingsMirror N R (declared.map fun (f, parameter, result) => (f, b parameter result))
      (declared'.map fun (f, parameter, result) => (f, b' parameter result)) := by
  rw [BindingsMirror, List.forall₂_map_left_iff, List.forall₂_map_right_iff]
  refine h.imp ?_
  rintro ⟨f, parameter, result⟩ ⟨f', _⟩ ⟨hf, rfl⟩
  exact ⟨hf, hb parameter result⟩

theorem declaredTypes_eq {declared declared' : List (String × Ty × Ty)}
    (h : List.Forall₂ (Beside N Eq) declared declared') :
    declared.map Prod.snd = declared'.map Prod.snd := by
  induction h with
  | nil => rfl
  | cons hentry _ ih => exact congrArg₂ List.cons hentry.2 ih

mutual

theorem inferPattern_mirrors : ∀ {n n' : Node}, Mirrors N R n n' →
    InfersAlike R (Beside (Mirrors N R) (Beside Eq (BindingsMirror N R))) (inferPattern n)
      (inferPattern n')
  | _, _, .patternBinder hm hx => .bind fresh_mirrors fun _ _ h =>
    h ▸ .pure ⟨.patternBinder (typed_mirrors hm _) hx, rfl, .cons ⟨hx, .mono⟩ .nil⟩
  | _, _, .patternLiteral hm => .pure ⟨.patternLiteral (typed_mirrors hm _), rfl, .nil⟩
  | _, _, .patternTuple hm hps => .bind (inferPatterns_mirrors hps)
    fun (_, _, _) (_, _, _) ⟨hps, rfl, hbindings⟩ =>
      .pure ⟨.patternTuple (typed_mirrors hm _) hps, rfl, hbindings⟩
  | _, _, .patternConstructor (c := c) hm hps => by
    refine .bind .get fun s s' hs => ?_
    rw [hs.signatures]
    cases s'.signatures.lookup c with
    | none => exact fail_mirrors rfl hm.position
    | some signature =>
      dsimp only
      rw [hps.length_eq]
      split
      · exact fail_mirrors rfl hm.position
      · exact .bind (inferArguments_mirrors hps) fun (_, _) (_, _) ⟨hps, hbindings⟩ =>
          .pure ⟨.patternConstructor (typed_mirrors hm _) hps, rfl, hbindings⟩
  | _, _, .top hm _ | _, _, .literal hm | _, _, .reference hm _ | _, _, .builtin hm
  | _, _, .lambda hm _ _ | _, _, .application hm _ _ | _, _, .letIn hm _ _ _ | _, _, .letRec hm _ _
  | _, _, .letRecArm hm _ _ _ | _, _, .conditional hm _ _ _ | _, _, .binary hm _ _
  | _, _, .unary hm _ | _, _, .sequence hm _ | _, _, .tuple hm _ | _, _, .projection hm _
  | _, _, .matchWith hm _ _ | _, _, .matchArm hm _ _ | _, _, .dataType hm _ _
  | _, _, .dataConstructor hm _ | _, _, .indexed hm => fail_mirrors rfl hm.position

theorem inferPatterns_mirrors : ∀ {ns ns' : List Node}, MirrorsAll N R ns ns' →
    InfersAlike R (Beside (MirrorsAll N R) (Beside Eq (BindingsMirror N R))) (inferPatterns ns)
      (inferPatterns ns')
  | _, _, .nil => .pure ⟨.nil, rfl, .nil⟩
  | _, _, .cons hn hns => .bind (inferPattern_mirrors hn) fun (_, _, _) (_, _, _) ⟨hn, rfl, hb⟩ =>
    .bind (inferPatterns_mirrors hns) fun (_, _, _) (_, _, _) ⟨hns, rfl, hbs⟩ =>
      .pure ⟨.cons hn hns, rfl, List.rel_append hb hbs⟩

theorem inferArguments_mirrors : ∀ {ns ns' : List Node} {ts : List Ty}, MirrorsAll N R ns ns' →
    InfersAlike R (Beside (MirrorsAll N R) (BindingsMirror N R)) (inferArguments ns ts)
      (inferArguments ns' ts)
  | _, _, _, .nil => .pure ⟨.nil, .nil⟩
  | _, _, [], .cons hn hns => .pure ⟨.cons hn hns, .nil⟩
  | _, _, _ :: _, .cons hn hns => .bind (inferPattern_mirrors hn)
    fun (_, _, _) (_, _, _) ⟨hn', rfl, hb⟩ => .bind (constrain_mirrors hn.position) fun _ _ _ =>
      .bind (inferArguments_mirrors hns) fun (_, _) (_, _) ⟨hns, hbs⟩ =>
        .pure ⟨.cons hn' hns, List.rel_append hb hbs⟩

end

end Types

/-! ## 5. Trees -/

mutual

/-- **Types are inferred alike** in trees that mirror each other, when a name stands for one name
    only. -/
theorem Node.Mirrors.infer (hN : Relator.BiUnique N) : ∀ {n n' : Node} {Γ Γ' : TypeEnvironment},
    Mirrors N R n n' → EnvironmentMirrors N R Γ Γ' →
      InfersAlike R (Beside (Mirrors N R) Eq) (n.infer generalize Γ) (n'.infer generalize Γ')
  | _, _, _, _, .top hm he, hΓ => .bind (he.infer hN hΓ) fun (_, _) (_, _) ⟨he, rfl⟩ =>
    .pure ⟨.top (typed_mirrors hm _) he, rfl⟩
  | _, _, _, _, .literal hm, _ => .pure ⟨.literal (typed_mirrors hm _), rfl⟩
  | _, _, Γ, Γ', @Mirrors.reference _ _ _ _ x x' hm hx, hΓ => by
    unfold Node.infer
    have hlookup := hΓ.lookup? hN hx
    generalize Types.lookup? Γ x = b at hlookup
    generalize Types.lookup? Γ' x' = b' at hlookup
    cases hlookup with
    | none => exact fail_mirrors rfl hm.position
    | some hb =>
      cases hb with
      | mono => exact .pure ⟨.reference (typed_mirrors hm _) hx, rfl⟩
      | poly hcs =>
        refine .bind (instantiate_mirrors hcs) ?_
        rintro t _ rfl
        exact .pure ⟨.reference (typed_mirrors hm _) hx, rfl⟩
  | _, _, _, _, .builtin (b := b) hm, _ => by
    refine .bind fresh_mirrors ?_
    rintro parameter _ rfl
    cases b with
    | println | print =>
      exact .bind (Q := Eq) (.pure rfl) fun _ _ h => h ▸ .pure ⟨.builtin (typed_mirrors hm _), rfl⟩
    | panic => exact .bind fresh_mirrors fun _ _ h => h ▸ .pure ⟨.builtin (typed_mirrors hm _), rfl⟩
  | _, _, _, _, .lambda hm hx hbody, hΓ => .bind ascribedOrFresh_mirrors fun _ _ h =>
    h ▸ .bind (hbody.infer hN (hΓ.extend hx .mono)) fun (_, _) (_, _) ⟨hbody, rfl⟩ =>
      .pure ⟨.lambda (typed_mirrors hm _) hx hbody, rfl⟩
  | _, _, _, _, .application hm hf he, hΓ => .bind (hf.infer hN hΓ)
    fun (_, _) (_, _) ⟨hf, rfl⟩ => .bind (he.infer hN hΓ) fun (_, _) (_, _) ⟨he, rfl⟩ =>
      .bind fresh_mirrors fun _ _ h => h ▸ .bind (constrain_mirrors hm.position) fun _ _ _ =>
        .pure ⟨.application (typed_mirrors hm _) hf he, rfl⟩
  | _, _, _, _, .letIn (a := a) hm hx hvalue hbody, hΓ => by
    refine .bind constraintCount_mirrors ?_
    rintro start _ rfl
    refine .bind (hvalue.infer hN hΓ) ?_
    rintro ⟨value, valueType⟩ ⟨value', _⟩ ⟨hvalue, rfl⟩
    cases a with
    | none =>
      exact .bind constraintsAround_mirrors fun (_, _) (_, _) ⟨_, hsince⟩ =>
        .bind (hbody.infer hN (hΓ.extend hx (generalize_mirrors hΓ hsince _)))
          fun (_, _) (_, _) ⟨hbody, rfl⟩ => .pure ⟨.letIn (typed_mirrors hm _) hx hvalue hbody, rfl⟩
    | some a =>
      exact .bind (constrain_mirrors hm.position) fun _ _ _ =>
        .bind constraintsAround_mirrors fun (_, _) (_, _) ⟨_, hsince⟩ =>
          .bind (hbody.infer hN (hΓ.extend hx (generalize_mirrors hΓ hsince _)))
            fun (_, _) (_, _) ⟨hbody, rfl⟩ =>
              .pure ⟨.letIn (typed_mirrors hm _) hx hvalue hbody, rfl⟩
  | _, _, _, _, .letRec hm harms hbody, hΓ => by
    refine .bind (declareGroup_mirrors harms) fun declared declared' hdeclared => ?_
    refine .bind constraintCount_mirrors ?_
    rintro start _ rfl
    have htypes : declared.map Prod.snd = declared'.map Prod.snd := declaredTypes_eq hdeclared
    rw [htypes]
    have hgroup := hΓ.extendAll (declared_mirrors hdeclared fun t u => .mono (t := .function t u))
    refine .bind (harms.inferGroup hN hgroup) ?_
    intro arms arms' harms
    refine .bind constraintsAround_mirrors ?_
    rintro ⟨earlier, since⟩ ⟨earlier', since'⟩ ⟨-, hsince⟩
    refine .bind (hbody.infer hN (hΓ.extendAll (declared_mirrors hdeclared fun _ _ =>
      generalize_mirrors hΓ hsince _))) ?_
    rintro ⟨body, t⟩ ⟨body', _⟩ ⟨hbody, rfl⟩
    exact .pure ⟨.letRec (typed_mirrors hm _) harms hbody, rfl⟩
  | _, _, _, _, .conditional hm hc ht he, hΓ => .bind (hc.infer hN hΓ)
    fun (_, _) (_, _) ⟨hc', rfl⟩ => .bind (constrain_mirrors hc.position) fun _ _ _ =>
      .bind (ht.infer hN hΓ) fun (_, _) (_, _) ⟨ht, rfl⟩ => .bind (he.infer hN hΓ)
        fun (_, _) (_, _) ⟨he, rfl⟩ => .bind (constrain_mirrors hm.position) fun _ _ _ =>
          .pure ⟨.conditional (typed_mirrors hm _) hc' ht he, rfl⟩
  | _, _, _, _, .binary (o := o) hm hl hr, hΓ => by
    refine .bind (hl.infer hN hΓ) ?_
    rintro ⟨lhs, lhsType⟩ ⟨lhs', _⟩ ⟨hl', rfl⟩
    refine .bind (hr.infer hN hΓ) ?_
    rintro ⟨rhs, rhsType⟩ ⟨rhs', _⟩ ⟨hr', rfl⟩
    dsimp only
    cases o.operatorClass with
    | arithmetic | relational =>
      exact .bind (constrain_mirrors hl.position) fun _ _ _ =>
        .bind (constrain_mirrors hr.position) fun _ _ _ =>
          .pure ⟨.binary (typed_mirrors hm _) hl' hr', rfl⟩
    | equality =>
      exact .bind (constrain_mirrors hm.position) fun _ _ _ =>
        .pure ⟨.binary (typed_mirrors hm _) hl' hr', rfl⟩
  | _, _, _, _, .unary hm he, hΓ => .bind (he.infer hN hΓ) fun (_, _) (_, _) ⟨he', rfl⟩ =>
    .bind (constrain_mirrors he.position) fun _ _ _ =>
      .pure ⟨.unary (typed_mirrors hm _) he', rfl⟩
  | _, _, _, _, .sequence hm hes, hΓ => .bind (hes.infer hN hΓ) fun (_, _) (_, _) ⟨hes, rfl⟩ =>
    .pure ⟨.sequence (typed_mirrors hm _) hes, rfl⟩
  | _, _, _, _, .tuple hm hes, hΓ => .bind (hes.infer hN hΓ) fun (_, _) (_, _) ⟨hes, rfl⟩ =>
    .pure ⟨.tuple (typed_mirrors hm _) hes, rfl⟩
  | _, _, _, _, @Mirrors.projection _ _ _ _ index _ _ _ hm he, hΓ => by
    refine .bind (he.infer hN hΓ) ?_
    rintro ⟨target, targetType⟩ ⟨target', _⟩ ⟨he, rfl⟩
    refine .bind resolveNow_mirrors ?_
    rintro t _ rfl
    cases t with
    | tuple ts =>
      dsimp only
      cases ts[index]? with
      | some t => exact .pure ⟨.projection (typed_mirrors hm _) he, rfl⟩
      | none => exact fail_mirrors rfl hm.position
    | _ => exact fail_mirrors rfl hm.position
  | _, _, _, _, .dataType hm hcs hbody, hΓ => .bind (declareConstructors_mirrors hcs hΓ)
    fun (_, _) (_, _) ⟨hcs, hinner⟩ => .bind (hbody.infer hN hinner)
      fun (_, _) (_, _) ⟨hbody, rfl⟩ => .pure ⟨.dataType (typed_mirrors hm _) hcs hbody, rfl⟩
  | _, _, _, _, .matchWith hm he harms, hΓ => .bind (he.infer hN hΓ)
    fun (_, _) (_, _) ⟨he, rfl⟩ => .bind fresh_mirrors fun _ _ h =>
      h ▸ .bind (harms.inferArms hN hΓ) fun _ _ harms =>
        .pure ⟨.matchWith (typed_mirrors hm _) he harms, rfl⟩
  | _, _, _, _, .letRecArm hm _ _ _, _ | _, _, _, _, .matchArm hm _ _, _
  | _, _, _, _, .dataConstructor hm _, _ | _, _, _, _, .patternBinder hm _, _
  | _, _, _, _, .patternTuple hm _, _ | _, _, _, _, .patternLiteral hm, _
  | _, _, _, _, .patternConstructor hm _, _ | _, _, _, _, .indexed hm, _ =>
    fail_mirrors rfl hm.position
termination_by structural n => n

theorem Node.MirrorsAll.infer (hN : Relator.BiUnique N) : ∀ {ns ns' : List Node}
    {Γ Γ' : TypeEnvironment}, MirrorsAll N R ns ns' → EnvironmentMirrors N R Γ Γ' →
      InfersAlike R (Beside (MirrorsAll N R) Eq) (Node.inferAll generalize Γ ns)
        (Node.inferAll generalize Γ' ns')
  | _, _, _, _, .nil, _ => .pure ⟨.nil, rfl⟩
  | _, _, _, _, .cons hn hns, hΓ => .bind (hn.infer hN hΓ) fun (_, _) (_, _) ⟨hn, rfl⟩ =>
    .bind (hns.infer hN hΓ) fun (_, _) (_, _) ⟨hns, rfl⟩ => .pure ⟨.cons hn hns, rfl⟩
termination_by structural ns => ns

theorem Node.MirrorsAll.inferGroup (hN : Relator.BiUnique N) : ∀ {ns ns' : List Node}
    {types : List (Ty × Ty)} {Γ Γ' : TypeEnvironment}, MirrorsAll N R ns ns' →
      EnvironmentMirrors N R Γ Γ' → InfersAlike R (MirrorsAll N R)
        (Node.inferGroup generalize Γ ns types) (Node.inferGroup generalize Γ' ns' types)
  | _, _, _, _, _, .nil, _ => .pure .nil
  | _, _, [], _, _, .cons hn _, _ => by
    cases hn <;> exact .pure .nil
  | _, _, _ :: _, _, _, .cons hn hns, hΓ => by
    cases hn with
    | letRecArm hm hf hx hbody =>
      exact .bind (hbody.infer hN (hΓ.extend hx .mono)) fun (_, _) (_, _) ⟨hbody, rfl⟩ =>
        .bind (constrain_mirrors hm.position) fun _ _ _ => .bind (hns.inferGroup hN hΓ)
          fun _ _ hns => .pure (.cons (.letRecArm (typed_mirrors hm _) hf hx hbody) hns)
    | _ => exact .pure .nil
termination_by structural ns => ns

theorem Node.MirrorsAll.inferArms (hN : Relator.BiUnique N) : ∀ {ns ns' : List Node}
    {Γ Γ' : TypeEnvironment} {t r : Ty}, MirrorsAll N R ns ns' → EnvironmentMirrors N R Γ Γ' →
      InfersAlike R (MirrorsAll N R) (Node.inferArms generalize Γ t r ns)
        (Node.inferArms generalize Γ' t r ns')
  | _, _, _, _, _, _, .nil, _ => .pure .nil
  | _, _, _, _, _, _, .cons hn hns, hΓ => by
    have hposition := hn.position
    cases hn with
    | matchArm hm hp hbody =>
      exact .bind (inferPattern_mirrors hp) fun (_, _, _) (_, _, _) ⟨hp', rfl, hb⟩ =>
        .bind (constrain_mirrors hp.position) fun _ _ _ =>
          .bind (hbody.infer hN (hΓ.extendAll hb)) fun (_, _) (_, _) ⟨hbody, rfl⟩ =>
            .bind (constrain_mirrors hm.position) fun _ _ _ => .bind (hns.inferArms hN hΓ)
              fun _ _ hns => .pure (.cons (.matchArm (typed_mirrors hm _) hp' hbody) hns)
    | _ => exact fail_mirrors rfl hposition
termination_by structural ns => ns

end

/-! ## 6. Programs -/

/-- Typings that mirror each other. -/
structure Typing.Mirrors (N : String → String → Prop) (R : Position → Position → Prop)
    (typing typing' : Typing) : Prop where
  tree : Node.Mirrors N R typing.tree typing'.tree
  type : typing.type = typing'.type
  constraints : ConstraintsMirror R typing.constraints typing'.constraints

/-- **Programs that mirror each other have types alike**, or errors that mirror each other. -/
theorem Node.Mirrors.inferTypes (hN : Relator.BiUnique N) {n n' : Node} (h : Mirrors N R n n') :
    Together (Typing.Mirrors N R) (CompileError.Mirrors R) n.inferTypes n'.inferTypes := by
  unfold Node.inferTypes Node.inferTypesBy
  obtain ⟨⟨tree, type⟩, ⟨tree', type'⟩, t, t', hrun, hrun', ht, htree, htype⟩ |
    ⟨e, e', ⟨t, hfails⟩, ⟨t', hfails'⟩, he⟩ :=
      @Node.Mirrors.infer N R hN n n' .empty .empty h .nil .empty .empty InferState.mirrors_empty
  · simp only [Runs] at hrun hrun'
    rw [hrun, hrun']
    exact .ok ⟨htree, htype, ht.constraints⟩
  · rw [hfails, hfails']
    exact .error he

theorem Node.Mirrors.applyTypes {n n' : Node} (h : Mirrors N R n n') (s : Substitution) :
    Mirrors N R (n.applyTypes s) (n'.applyTypes s) := by
  unfold Node.applyTypes
  refine h.mapMarks ?_
  exact fun m m' hm => ⟨hm.position, congrArg (Option.map s.apply) hm.ty⟩

/-- **Types are unified alike.** -/
theorem Typing.Mirrors.unify {typing typing' : Typing} (h : typing.Mirrors N R typing') :
    Together (Node.Mirrors N R) (CompileError.Mirrors R) typing.unify typing'.unify := by
  refine (unifyFrom_mirrors h.constraints).bind ?_
  rintro s _ rfl
  exact .pure (h.tree.applyTypes s)

end ClosureML
