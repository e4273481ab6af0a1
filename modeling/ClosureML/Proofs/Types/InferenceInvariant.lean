import ClosureML.Proofs.Types.HindleyMilner
import ClosureML.Proofs.Types.InferenceRun
import ClosureML.Proofs.Types.UnificationCorrect
import Mathlib.Logic.Basic

/-!
# What inference preserves

Every step of inference only adds equations and signatures, and what is solved on the way says
nothing that the equations do not say. The tree that is given types is the tree from before, but for
its marks and the numbers of elements that its projections record.

* `InferState.Sound`: the invariant of the solution on the way;
* `InferState.Follows`: what every step preserves, and the declarations that it notes down.

Main statements: `Infers.follows` and `Infers.plainBy_eq`.
-/

namespace ClosureML

open ClosureML.Types

/-! ## 1. What every step preserves -/

/-- What inference notes down about a declared constructor. -/
def Declaration.signature (d : Declaration) : String × Signature :=
  (d.name, ⟨d.parameters.map TypeExpr.toTy, .data d.dataType⟩)

namespace Types

/-- The solution on the way says nothing that the equations do not say. -/
structure InferState.Sound (s : InferState) : Prop where
  idempotent : s.solved.Idempotent
  agrees : ∀ θ, Solves θ s.constraints.toList → s.solved.AgreesWith θ

theorem InferState.sound_empty : InferState.empty.Sound :=
  ⟨Substitution.idempotent_empty, fun θ _ => Substitution.agreesWith_empty θ⟩

/-- What a step preserves: variables are numbered upward, equations are only added, the signatures
    of the declarations `ds` are put in front of those before, and the solution on the way stays
    sound. -/
structure InferState.Follows (ds : List Declaration) (s s' : InferState) : Prop where
  next : s.nextVariable ≤ s'.nextVariable
  constraints : s.constraints.toList <+: s'.constraints.toList
  signatures : s'.signatures = (ds.map Declaration.signature).reverse ++ s.signatures
  sound : s.Sound → s'.Sound

namespace InferState.Follows

variable {ds es : List Declaration} {s s₁ s' : InferState}

theorem refl (s : InferState) : Follows [] s s := ⟨Nat.le_refl _, List.prefix_refl _, rfl, id⟩

theorem trans (h : Follows ds s s₁) (h' : Follows es s₁ s') : Follows (ds ++ es) s s' where
  next := Nat.le_trans h.next h'.next
  constraints := h.constraints.trans h'.constraints
  signatures := by rw [h'.signatures, h.signatures, List.map_append, List.reverse_append,
    List.append_assoc]
  sound := h'.sound ∘ h.sound

/-- A solution of the equations behind a step is one of those before. -/
theorem solves (h : Follows ds s s') {θ : TypeVar → SimpleType}
    (hθ : Solves θ s'.constraints.toList) : Solves θ s.constraints.toList := fun c hc =>
  hθ c (h.constraints.subset hc)

/-- A step that adds equations and leaves the rest alone. -/
theorem of_add {cs : List Constraint} (hnext : s.nextVariable ≤ s'.nextVariable)
    (hcs : s'.constraints.toList = s.constraints.toList ++ cs) (hsig : s'.signatures = s.signatures)
    (hsolved : s'.solved = s.solved) : Follows [] s s' where
  next := hnext
  constraints := hcs ▸ List.prefix_append _ _
  signatures := hsig
  sound h := by
    refine ⟨hsolved ▸ h.idempotent, fun θ hθ => ?_⟩
    rw [hcs, solves_append] at hθ
    rw [hsolved]
    exact h.agrees θ hθ.1

end InferState.Follows

variable {s s' : InferState}

theorem runs_fresh {t : Ty} :
    Runs fresh s t s' ↔
      .var (.ofNat s.nextVariable) = t ∧ { s with nextVariable := s.nextVariable + 1 } = s' :=
  runs_modifyGet

theorem follows_fresh {t : Ty} (h : Runs fresh s t s') : InferState.Follows [] s s' := by
  obtain ⟨-, rfl⟩ := runs_fresh.1 h
  exact .of_add (Nat.le_succ _) (List.append_nil _).symm rfl rfl

theorem runs_constrain {t u : Ty} {position : Position}
    (h : Runs (constrain t u position) s () s') :
    (t = u ∧ s' = s) ∨ s' = { s with constraints := s.constraints.push ⟨t, u, position⟩ } := by
  simp only [constrain, Constraint.isTrivial, decide_eq_true_eq] at h
  split at h
  · next heq => exact .inl ⟨heq, (runs_pure.1 h).2.symm⟩
  · exact .inr (runs_modify.1 h).symm

theorem follows_constrain {t u : Ty} {position : Position}
    (h : Runs (constrain t u position) s () s') : InferState.Follows [] s s' := by
  rcases runs_constrain h with ⟨-, rfl⟩ | rfl
  · exact .refl _
  · exact .of_add (Nat.le_refl _) Array.toList_push rfl rfl

/-- Behind an equation, its sides stand for the same type under every solution. -/
theorem interpret_eq_of_constrain {t u : Ty} {position : Position} {θ : TypeVar → SimpleType}
    (h : Runs (constrain t u position) s () s') (hθ : Solves θ s'.constraints.toList) :
    t.interpret θ = u.interpret θ := by
  rcases runs_constrain h with ⟨rfl, -⟩ | rfl
  · rfl
  · exact hθ ⟨t, u, position⟩ (by simp)

theorem follows_ascribedOrFresh {ascription : Option TypeExpr} {t : Ty}
    (h : Runs (ascribedOrFresh ascription) s t s') : InferState.Follows [] s s' := by
  cases ascription with
  | none => exact follows_fresh h
  | some a =>
    obtain ⟨-, rfl⟩ := runs_pure.1 h
    exact .refl _

theorem follows_agrees {t : Ty} {position : Position} {ascription : Option TypeExpr}
    (h : Agrees t position ascription s s') : InferState.Follows [] s s' := by
  cases ascription with
  | none => exact h ▸ .refl _
  | some a => exact follows_constrain h

/-- Equations cut in two are put together again. -/
theorem append_of_splitAt {cs earlier since : List Constraint} {k : Nat}
    (h : cs.splitAt k = (earlier, since)) : cs = earlier ++ since := by
  rw [List.splitAt_eq, Prod.mk.injEq] at h
  rw [← h.1, ← h.2, List.take_append_drop]

theorem follows_freshCopies : ∀ {vs : VarSet} {copies : List (TypeVar × Ty)} {s s' : InferState},
    Runs (freshCopies vs) s copies s' → InferState.Follows [] s s' ∧ s'.constraints = s.constraints
  | [], _, _, _, h => by
    obtain ⟨-, rfl⟩ := runs_pure.1 h
    exact ⟨.refl _, rfl⟩
  | v :: vs, _, _, _, h => by
    simp only [freshCopies, runs_bind, runs_pure] at h
    obtain ⟨t, s₁, ht, more, s₂, hmore, -, rfl⟩ := h
    obtain ⟨hfollows, hcs⟩ := follows_freshCopies hmore
    refine ⟨(follows_fresh ht).trans hfollows, hcs.trans ?_⟩
    obtain ⟨-, rfl⟩ := runs_fresh.1 ht
    rfl

/-- A copy of a schema: its type and its equations with the same replacement of variables, which
    leaves the variables alone that are not quantified. -/
theorem runs_instantiate {schema : Schema} {t : Ty} (h : Runs (instantiate schema) s t s') :
    ∃ copies s₁, Runs (freshCopies schema.quantified) s copies s₁ ∧
      t = schema.type.substitute (fun v => Substitution.findIn v copies) ∧
      s' = { s₁ with
        constraints := s₁.constraints ++
          schema.constraints.map
            (Constraint.substitute fun v => Substitution.findIn v copies) } := by
  simp only [instantiate, runs_bind, runs_modify, runs_pure] at h
  obtain ⟨copies, s₁, hcopies, ⟨⟩, s₂, rfl, rfl, rfl⟩ := h
  exact ⟨copies, s₁, hcopies, rfl, rfl⟩

theorem follows_instantiate {schema : Schema} {t : Ty} (h : Runs (instantiate schema) s t s') :
    InferState.Follows [] s s' := by
  obtain ⟨copies, s₁, hcopies, -, rfl⟩ := runs_instantiate h
  exact (follows_freshCopies hcopies).1.trans
    (.of_add (Nat.le_refl _) Array.toList_appendList rfl rfl)

/-- Solving on the way leaves the equations alone, and finds a type that stands for the same. -/
theorem runs_resolveNow {t u : Ty} (h : Runs (resolveNow t) s u s') :
    ∃ solved, s.solved.extend (s.constraints.toList.drop s.solvedUntil) = .ok solved ∧
      u = solved.apply t ∧ s' = { s with solved, solvedUntil := s.constraints.size } := by
  simp only [resolveNow, runs_bind, runs_get] at h
  obtain ⟨_, _, ⟨rfl, rfl⟩, h⟩ := h
  split at h
  · next solved hsolved =>
    simp only [runs_bind, runs_set, runs_pure] at h
    obtain ⟨⟨⟩, s₁, rfl, rfl, rfl⟩ := h
    exact ⟨solved, hsolved, rfl, rfl⟩
  · exact absurd h runs_throw

theorem follows_resolveNow {t u : Ty} (h : Runs (resolveNow t) s u s') :
    InferState.Follows [] s s' := by
  obtain ⟨solved, hsolved, -, rfl⟩ := runs_resolveNow h
  refine ⟨Nat.le_refl _, List.prefix_refl _, rfl, fun hs => ?_⟩
  obtain ⟨hidempotent, hagrees⟩ := extend_ok hs.idempotent hsolved
  refine ⟨hidempotent, fun θ hθ => (hagrees θ).2 ⟨hs.agrees θ hθ, ?_⟩⟩
  exact fun c hc => hθ c (List.mem_of_mem_drop hc)

/-- What is found on the way stands for the same type under every solution. -/
theorem interpret_resolveNow {t u : Ty} {θ : TypeVar → SimpleType} (h : Runs (resolveNow t) s u s')
    (hs : s.Sound) (hθ : Solves θ s'.constraints.toList) : u.interpret θ = t.interpret θ := by
  have hs' := (follows_resolveNow h).sound hs
  obtain ⟨solved, -, rfl, rfl⟩ := runs_resolveNow h
  exact (hs'.agrees θ hθ).interpret_apply t

theorem follows_declareGroup : ∀ {arms : List Node} {declared : List (String × Ty × Ty)}
    {s s' : InferState}, Runs (declareGroup arms) s declared s' → InferState.Follows [] s s'
  | [], _, _, _, h => by
    obtain ⟨-, rfl⟩ := runs_pure.1 h
    exact .refl _
  | .letRecArm .. :: rest, _, _, _, h => by
    simp only [declareGroup, runs_bind, runs_pure] at h
    obtain ⟨p, s₁, hp, r, s₂, hr, more, s₃, hmore, -, rfl⟩ := h
    exact ((follows_ascribedOrFresh hp).trans (follows_ascribedOrFresh hr)).trans
      (follows_declareGroup hmore)

/-- What the declaration of constructors does: they are noted down, and bound in their order. -/
theorem runs_declareConstructors {d : String} : ∀ {Γ Γ' : TypeEnvironment} {cs cs' : List Node}
    {s s' : InferState}, Runs (Types.declareConstructors d Γ cs) s (cs', Γ') s' →
      InferState.Follows (Node.declared d cs) s s' ∧
      Γ' = Γ.extendAll ((Node.declared d cs).map fun c =>
        (c.name, .mono (constructorType (c.parameters.map TypeExpr.toTy) (.data d)))) ∧
        Node.declared d cs' = Node.declared d cs
  | _, _, [], _, _, _, h => by
    obtain ⟨h, rfl⟩ := runs_pure.1 h
    cases h
    exact ⟨.refl _, rfl, rfl⟩
  | Γ, _, .dataConstructor m c parameters tag :: rest, _, s, _, h => by
    simp only [Types.declareConstructors, runs_bind, runs_modify, runs_pure] at h
    obtain ⟨⟨⟩, _, rfl, ⟨more, inner⟩, s₂, hmore, h, rfl⟩ := h
    cases h
    obtain ⟨hfollows, rfl, hsame⟩ := runs_declareConstructors hmore
    have hfirst : InferState.Follows [⟨c, parameters, d⟩] s
        { s with signatures := (c, ⟨parameters.map TypeExpr.toTy, .data d⟩) :: s.signatures } :=
      ⟨Nat.le_refl _, List.prefix_refl _, rfl, fun h => ⟨h.idempotent, h.agrees⟩⟩
    refine ⟨hfirst.trans hfollows, rfl, ?_⟩
    show (⟨c, parameters, d⟩ : Declaration) :: Node.declared d more = ⟨c, parameters, d⟩ :: _
    rw [hsame]
    rfl

end Types

/-! ## 2. Patterns and trees -/

open InferState (Follows)

mutual

theorem InfersPattern.follows {n n' : Node} {t : Ty} {bindings : List (String × Binding)}
    {s s' : InferState} : InfersPattern n s n' t bindings s' → Follows [] s s'
  | .binder ht => follows_fresh ht
  | .literal => .refl _
  | .tuple hps => hps.follows
  | .constructor _ _ hps => hps.follows

theorem InfersPatterns.follows {ns ns' : List Node} {ts : List Ty}
    {bindings : List (String × Binding)} {s s' : InferState} :
    InfersPatterns ns s ns' ts bindings s' → Follows [] s s'
  | .nil => .refl _
  | .cons hp hps => hp.follows.trans hps.follows

theorem InfersArguments.follows {ns ns' : List Node} {ts : List Ty}
    {bindings : List (String × Binding)} {s s' : InferState} :
    InfersArguments ns ts s ns' bindings s' → Follows [] s s'
  | .nil => .refl _
  | .cons hp ht hps => (hp.follows.trans (follows_constrain ht)).trans hps.follows

end

mutual

/-- Patterns declare nothing. -/
theorem InfersPattern.declarations {n n' : Node} {t : Ty} {bindings : List (String × Binding)}
    {s s' : InferState} : InfersPattern n s n' t bindings s' → n.declarations = []
  | .binder _ => rfl
  | .literal => rfl
  | .tuple hps => (Node.declarations_eq _).trans hps.declarations
  | .constructor _ _ hps => (Node.declarations_eq _).trans hps.declarations

theorem InfersPatterns.declarations {ns ns' : List Node} {ts : List Ty}
    {bindings : List (String × Binding)} {s s' : InferState} :
    InfersPatterns ns s ns' ts bindings s' → Node.declarationsAll ns = []
  | .nil => rfl
  | .cons hp hps => by
    rw [Node.declarationsAll, List.flatMap_cons, hp.declarations]
    exact hps.declarations

theorem InfersArguments.declarations {ns ns' : List Node} {ts : List Ty}
    {bindings : List (String × Binding)} {s s' : InferState} :
    InfersArguments ns ts s ns' bindings s' → Node.declarationsAll ns = []
  | .nil => rfl
  | .cons hp _ hps => by
    rw [Node.declarationsAll, List.flatMap_cons, hp.declarations]
    exact hps.declarations

end

/-- Constructors declare nothing beside what their data type declares. -/
theorem declarationsAll_of_declareConstructors {d : String} : ∀ {Γ Γ' : TypeEnvironment}
    {cs cs' : List Node} {s s' : InferState},
    Runs (Types.declareConstructors d Γ cs) s (cs', Γ') s' → Node.declarationsAll cs = []
  | _, _, [], _, _, _, _ => rfl
  | _, _, .dataConstructor m c parameters tag :: rest, _, _, _, h => by
    simp only [Types.declareConstructors, runs_bind, runs_modify, runs_pure] at h
    obtain ⟨⟨⟩, _, rfl, ⟨more, inner⟩, s₂, hmore, -, -⟩ := h
    have hrest := declarationsAll_of_declareConstructors hmore
    exact hrest

open Node (declarations_eq declarationsAll)

mutual

/-- **A run only adds equations and signatures**: those of the declarations of the tree. -/
theorem Infers.follows {g : Generalizer} {Γ : TypeEnvironment} {n n' : Node} {t : Ty}
    {s s' : InferState} : Infers g Γ n s n' t s' → Follows n.declarations s s'
  | .top he => by
    rw [declarations_eq]
    simpa [Node.declaredHere, Node.children, declarationsAll] using he.follows
  | .literal => .refl _
  | .mono _ => .refl _
  | .poly _ ht => follows_instantiate ht
  | .printer _ ht => follows_fresh ht
  | .panic ht hu => (follows_fresh ht).trans (follows_fresh hu)
  | .lambda ht hbody => by
    rw [declarations_eq]
    simpa [Node.declaredHere, Node.children, declarationsAll] using
      (follows_ascribedOrFresh ht).trans hbody.follows
  | .application hf ha hr hc => by
    rw [declarations_eq]
    simpa [Node.declaredHere, Node.children, declarationsAll] using
      (hf.follows.trans ha.follows).trans ((follows_fresh hr).trans (follows_constrain hc))
  | .letIn hvalue ha _ hbody => by
    rw [declarations_eq]
    simpa [Node.declaredHere, Node.children, declarationsAll] using
      (hvalue.follows.trans (follows_agrees ha)).trans hbody.follows
  | .letRec hdeclared harms _ hbody => by
    rw [declarations_eq]
    simpa [Node.declaredHere, Node.children, declarationsAll] using
      ((follows_declareGroup hdeclared).trans harms.follows).trans hbody.follows
  | .conditional hc ht ha hb hu => by
    rw [declarations_eq]
    simpa [Node.declaredHere, Node.children, declarationsAll] using
      ((hc.follows.trans (follows_constrain ht)).trans (ha.follows.trans hb.follows)).trans
        (follows_constrain hu)
  | .ofInts _ hl hr ht hu => by
    rw [declarations_eq]
    simpa [Node.declaredHere, Node.children, declarationsAll] using
      (hl.follows.trans hr.follows).trans ((follows_constrain ht).trans (follows_constrain hu))
  | .equality _ hl hr ht => by
    rw [declarations_eq]
    simpa [Node.declaredHere, Node.children, declarationsAll] using
      (hl.follows.trans hr.follows).trans (follows_constrain ht)
  | .unary he ht => by
    rw [declarations_eq]
    simpa [Node.declaredHere, Node.children, declarationsAll] using
      he.follows.trans (follows_constrain ht)
  | .sequence hes => by
    rw [declarations_eq]
    exact hes.follows
  | .tuple hes => by
    rw [declarations_eq]
    exact hes.follows
  | .projection he ht _ => by
    rw [declarations_eq]
    simpa [Node.declaredHere, Node.children, declarationsAll] using
      he.follows.trans (follows_resolveNow ht)
  | .dataType hcs hbody => by
    have hnone := declarationsAll_of_declareConstructors hcs
    rw [declarationsAll] at hnone
    rw [declarations_eq]
    simpa [Node.declaredHere, Node.children, declarationsAll, hnone] using
      (runs_declareConstructors hcs).1.trans hbody.follows
  | .matchWith he hr harms => by
    rw [declarations_eq]
    simpa [Node.declaredHere, Node.children, declarationsAll] using
      (he.follows.trans (follows_fresh hr)).trans harms.follows

theorem InfersAll.follows {g : Generalizer} {Γ : TypeEnvironment} {ns ns' : List Node}
    {ts : List Ty} {s s' : InferState} :
    InfersAll g Γ ns s ns' ts s' → Follows (declarationsAll ns) s s'
  | .nil => .refl _
  | .cons hn hns => hn.follows.trans hns.follows

theorem InfersGroup.follows {g : Generalizer} {Γ : TypeEnvironment} {ns ns' : List Node}
    {types : List (Ty × Ty)} {s s' : InferState} :
    InfersGroup g Γ ns types s ns' s' → Follows (declarationsAll ns) s s'
  | .nil => .refl _
  | .cons hbody ht hrest => by
    rw [declarationsAll, List.flatMap_cons, declarations_eq]
    simpa [Node.declaredHere, Node.children, declarationsAll] using
      (hbody.follows.trans (follows_constrain ht)).trans hrest.follows

theorem InfersArms.follows {g : Generalizer} {Γ : TypeEnvironment} {ns ns' : List Node}
    {t r : Ty} {s s' : InferState} :
    InfersArms g Γ t r ns s ns' s' → Follows (declarationsAll ns) s s'
  | .nil => .refl _
  | .cons hp ht hbody hr hrest => by
    rw [declarationsAll, List.flatMap_cons, declarations_eq]
    simpa [Node.declaredHere, Node.children, declarationsAll, hp.declarations] using
      ((hp.follows.trans (follows_constrain ht)).trans
        (hbody.follows.trans (follows_constrain hr))).trans hrest.follows

end

/-! ## 3. What is written into the tree -/

open Node

section Plain

variable {f : Position → Mark}

mutual

theorem InfersPattern.plainBy_eq {n n' : Node} {t : Ty} {bindings : List (String × Binding)}
    {s s' : InferState} : InfersPattern n s n' t bindings s' → n'.plainBy f = n.plainBy f
  | .binder _ => rfl
  | .literal => rfl
  | .tuple hps => congrArg (patternTuple _) hps.plainBy_eq
  | .constructor _ _ hps => congrArg (patternConstructor _ _ · _) hps.plainBy_eq

theorem InfersPatterns.plainBy_eq {ns ns' : List Node} {ts : List Ty}
    {bindings : List (String × Binding)} {s s' : InferState} :
    InfersPatterns ns s ns' ts bindings s' → plainAllBy f ns' = plainAllBy f ns
  | .nil => rfl
  | .cons hp hps => congrArg₂ List.cons hp.plainBy_eq hps.plainBy_eq

theorem InfersArguments.plainBy_eq {ns ns' : List Node} {ts : List Ty}
    {bindings : List (String × Binding)} {s s' : InferState} :
    InfersArguments ns ts s ns' bindings s' → plainAllBy f ns' = plainAllBy f ns
  | .nil => rfl
  | .cons hp _ hps => congrArg₂ List.cons hp.plainBy_eq hps.plainBy_eq

end

theorem plainAllBy_of_declareConstructors {d : String} : ∀ {Γ Γ' : TypeEnvironment}
    {cs cs' : List Node} {s s' : InferState},
    Runs (Types.declareConstructors d Γ cs) s (cs', Γ') s' → plainAllBy f cs' = plainAllBy f cs
  | _, _, [], _, _, _, h => by
    obtain ⟨h, -⟩ := runs_pure.1 h
    cases h
    rfl
  | _, _, .dataConstructor m c parameters tag :: rest, _, _, _, h => by
    simp only [Types.declareConstructors, runs_bind, runs_modify, runs_pure] at h
    obtain ⟨⟨⟩, _, rfl, ⟨more, inner⟩, s₂, hmore, h, -⟩ := h
    cases h
    exact congrArg (List.cons _) (plainAllBy_of_declareConstructors hmore)

mutual

/-- **Inference changes nothing** but types in the marks and the numbers of elements that are
    recorded. -/
theorem Infers.plainBy_eq {g : Generalizer} {Γ : TypeEnvironment} {n n' : Node} {t : Ty}
    {s s' : InferState} : Infers g Γ n s n' t s' → n'.plainBy f = n.plainBy f
  | .top he => congrArg (top _) he.plainBy_eq
  | .literal | .mono _ | .poly _ _ | .printer _ _ | .panic _ _ => rfl
  | .lambda _ hbody => congrArg (lambda _ _ _) hbody.plainBy_eq
  | .application hf ha _ _ => congrArg₂ (application _) hf.plainBy_eq ha.plainBy_eq
  | .letIn hvalue _ _ hbody => congrArg₂ (letIn _ _ _) hvalue.plainBy_eq hbody.plainBy_eq
  | .letRec _ harms _ hbody => congrArg₂ (letRec _) harms.plainBy_eq hbody.plainBy_eq
  | .conditional hc _ ha hb _ => by
    show conditional _ _ _ _ = conditional _ _ _ _
    exact congr (congrArg₂ (conditional _) hc.plainBy_eq ha.plainBy_eq) hb.plainBy_eq
  | .ofInts _ hl hr _ _ => congrArg₂ (binary _ _) hl.plainBy_eq hr.plainBy_eq
  | .equality _ hl hr _ => congrArg₂ (binary _ _) hl.plainBy_eq hr.plainBy_eq
  | .unary he _ => congrArg (unary _ _) he.plainBy_eq
  | .sequence hes => congrArg (sequence _) hes.plainBy_eq
  | .tuple hes => congrArg (tuple _) hes.plainBy_eq
  | .projection he _ _ => congrArg (projection _ _ none) he.plainBy_eq
  | .dataType hcs hbody =>
    congrArg₂ (dataType _ _) (plainAllBy_of_declareConstructors hcs) hbody.plainBy_eq
  | .matchWith he _ harms => congrArg₂ (matchWith _) he.plainBy_eq harms.plainBy_eq

theorem InfersAll.plainBy_eq {g : Generalizer} {Γ : TypeEnvironment} {ns ns' : List Node}
    {ts : List Ty} {s s' : InferState} :
    InfersAll g Γ ns s ns' ts s' → plainAllBy f ns' = plainAllBy f ns
  | .nil => rfl
  | .cons hn hns => congrArg₂ List.cons hn.plainBy_eq hns.plainBy_eq

theorem InfersGroup.plainBy_eq {g : Generalizer} {Γ : TypeEnvironment} {ns ns' : List Node}
    {types : List (Ty × Ty)} {s s' : InferState} :
    InfersGroup g Γ ns types s ns' s' → plainAllBy f ns' = plainAllBy f ns
  | .nil => rfl
  | .cons hbody _ hrest =>
    congrArg₂ List.cons (congrArg (letRecArm _ _ _ _ _) hbody.plainBy_eq) hrest.plainBy_eq

theorem InfersArms.plainBy_eq {g : Generalizer} {Γ : TypeEnvironment} {ns ns' : List Node}
    {t r : Ty} {s s' : InferState} :
    InfersArms g Γ t r ns s ns' s' → plainAllBy f ns' = plainAllBy f ns
  | .nil => rfl
  | .cons hp _ hbody _ hrest =>
    congrArg₂ List.cons (congrArg₂ (matchArm _) hp.plainBy_eq hbody.plainBy_eq) hrest.plainBy_eq

end

end Plain

/-- Without positions too, the tree is the one before. -/
theorem Infers.plain_eq {g : Generalizer} {Γ : TypeEnvironment} {n n' : Node} {t : Ty}
    {s s' : InferState} (h : Infers g Γ n s n' t s') : n'.plain = n.plain :=
  h.plainBy_eq (f := fun _ => default)

end ClosureML
