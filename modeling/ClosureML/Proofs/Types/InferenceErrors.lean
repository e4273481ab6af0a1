import ClosureML.Proofs.Types.InferenceSound
import ClosureML.Proofs.Types.TypedTree

/-!
# Errors of inference

Inference of a program with its names resolved ends with an error only where types do not fit
together: every name has a type, every constructor is declared, and every node stands where it
belongs.

* `CompileError.IsTypeClash`: the errors about types that do not fit together;
* `Types.Covers`, `Types.Declares`: every name and every constructor in scope has a type.

Main statements: `Renames.infer_failsFrom` and `RenamesProgram.inferTypes_error`.
-/

namespace ClosureML

open Names ClosureML.Types Node

/-! ## 1. Errors about types -/

/-- Types do not fit together. -/
def Cause.IsTypeClash : Cause → Prop
  | constructorArity .. | projectionOfNonTuple .. | projectionOutOfRange .. | mismatch ..
  | tupleLengths .. | infiniteType .. => True
  | _ => False

/-- An error about types that do not fit together. -/
def CompileError.IsTypeClash (e : CompileError) : Prop := e.cause.IsTypeClash

/-- Such an error is about a local rule of typing or about types that must be equal. -/
theorem CompileError.IsTypeClash.kind_eq {e : CompileError} (h : e.IsTypeClash) :
    e.cause.kind = .typeError ∨ e.cause.kind = .unifyError := by
  obtain ⟨cause, position⟩ := e
  cases cause with
  | constructorArity | projectionOfNonTuple | projectionOutOfRange => exact .inl rfl
  | mismatch | tupleLengths | infiniteType => exact .inr rfl
  | _ => exact absurd h id

theorem unifyFrom_error {s : Substitution} {cs : List Constraint} {e : CompileError}
    (h : unifyFrom s cs = .error e) : e.IsTypeClash := by
  fun_induction unifyFrom s cs with
  | case1 => cases h
  | case2 _ _ _ _ ih => exact ih h
  | case3 _ _ _ _ _ _ _ _ ih => exact ih h
  | case4 _ _ _ _ _ _ _ ih => exact ih h
  | case5 => exact Except.error.inj h ▸ trivial
  | case6 => exact Except.error.inj h ▸ trivial
  | case7 _ _ _ _ _ _ _ ih => exact ih h
  | case8 => exact Except.error.inj h ▸ trivial
  | case9 _ _ _ _ _ _ _ _ ih => exact ih h
  | case10 => exact Except.error.inj h ▸ trivial

/-- **Unification ends only with errors about types.** -/
theorem Typing.unify_error {typing : Typing} {e : CompileError} (h : typing.unify = .error e) :
    e.IsTypeClash :=
  unifyFrom_error (Typing.unify_error_iff.1 h)

/-- The errors that inference of a node may end with by itself have the property `p`, when the
    constructors are those of `Δ`. -/
structure Node.Allows (Δ : List Declaration) (p : CompileError → Prop) (n : Node) : Prop where
  declares : ∀ d ∈ n.declaredHere, d ∈ Δ
  projection : n.kind = .projection → ∀ e : CompileError, e.IsTypeClash → p e
  arity : ∀ {m : Mark} {c : String} {ps : List Node} {tag : Option Nat},
    n = .patternConstructor m c ps tag → ∀ d ∈ Δ, c = d.name →
    ps.length ≠ d.parameters.length →
    p ⟨.constructorArity c d.parameters.length ps.length, m.position⟩

/-- Whatever the node, these errors are about types that do not fit together. -/
theorem Node.allows_isTypeClash {Δ : List Declaration} {n : Node}
    (h : ∀ d ∈ n.declaredHere, d ∈ Δ) : n.Allows Δ CompileError.IsTypeClash :=
  ⟨h, fun _ _ he => he, fun _ _ _ _ _ => trivial⟩

/-! ## 2. Steps -/

variable {Δ : List Declaration} {ok : CompileError → Prop}

/-- The declarations of a tree are among those that its nodes allow. -/
theorem Node.Everywhere.declarations {n : Node} (h : n.Everywhere (Node.Allows Δ ok)) :
    ∀ d ∈ n.declarations, d ∈ Δ :=
  (h.imp fun _ hn => hn.declares).mem_of_mem_declarations

theorem Node.declarationsAll_of_allows {ns : List Node}
    (h : ∀ n ∈ ns, n.Everywhere (Node.Allows Δ ok)) : ∀ d ∈ declarationsAll ns, d ∈ Δ := by
  intro d hd
  obtain ⟨n, hn, hd⟩ := List.mem_flatMap.1 hd
  exact (h n hn).declarations d hd

namespace Types

/-- Every name in scope has a type. -/
def Covers (Γ : TypeEnvironment) (scope : NameScope) : Prop :=
  ∀ x ∈ scopeNames scope, x ∈ Γ.toList.map Prod.fst

/-- Every constructor in scope is declared, and all signatures are those of declarations. -/
structure Declares (Δ : List Declaration) (s : InferState) (scope : NameScope) : Prop where
  names : ∀ c ∈ (scopeTags scope).map Prod.fst, c ∈ s.signatures.map Prod.fst
  declared : Declared Δ s

theorem exists_lookup?_of_mem {Γ : TypeEnvironment} {x : String} (h : x ∈ Γ.toList.map Prod.fst) :
    ∃ b, lookup? Γ x = some b := by
  obtain ⟨⟨y, b⟩, hentry, rfl⟩ := List.mem_map.1 h
  have hsome : (lookup? Γ y).isSome := List.findSome?_isSome_iff.2 ⟨(y, b), hentry, by simp⟩
  exact Option.isSome_iff_exists.1 hsome

theorem exists_lookup_of_mem {signatures : List (String × Signature)} {c : String}
    (h : c ∈ signatures.map Prod.fst) : ∃ signature, signatures.lookup c = some signature := by
  induction signatures with
  | nil => cases h
  | cons entry rest ih =>
    obtain ⟨d, signature⟩ := entry
    rw [List.lookup_cons]
    by_cases hcd : c = d
    · rw [hcd, BEq.rfl]
      exact ⟨signature, rfl⟩
    · rw [beq_false_of_ne hcd]
      exact ih ((List.mem_cons.1 h).resolve_left hcd)

theorem Covers.extend {Γ : TypeEnvironment} {scope : NameScope} (h : Covers Γ scope)
    {x x' : String} (b : Binding) : Covers (Γ.extend (x', b)) (scope.extend (.binder x x')) := by
  intro y hy
  rcases List.mem_cons.1 hy with rfl | hy
  · exact List.mem_cons_self
  · exact List.mem_cons_of_mem _ (h y hy)

theorem Covers.extendAll {Γ : TypeEnvironment} {scope : NameScope} (h : Covers Γ scope)
    {pairs : List (String × String)} {bindings : List (String × Binding)}
    (hnames : bindings.map Prod.fst = pairs.map Prod.snd) :
    Covers (Γ.extendAll bindings) (extendBinders scope pairs) := by
  intro y hy
  rw [scopeNames_extendBinders, ← hnames, ← List.map_reverse] at hy
  rw [Scope.toList_extendAll, List.map_append]
  exact List.mem_append.2 ((List.mem_append.1 hy).imp id (h y))

theorem Covers.dataType {Γ : TypeEnvironment} {scope : NameScope} (h : Covers Γ scope)
    (d : String) : Covers Γ (scope.extend (.dataType d)) := h

theorem Declares.dataType {s : InferState} {scope : NameScope} (h : Declares Δ s scope)
    (d : String) : Declares Δ s (scope.extend (.dataType d)) := ⟨h.names, h.declared⟩

theorem Declares.binder {s : InferState} {scope : NameScope} (h : Declares Δ s scope)
    (x x' : String) : Declares Δ s (scope.extend (.binder x x')) := ⟨h.names, h.declared⟩

theorem Declares.extendBinders {s : InferState} {scope : NameScope} (h : Declares Δ s scope)
    (pairs : List (String × String)) : Declares Δ s (extendBinders scope pairs) := by
  refine ⟨?_, h.declared⟩
  rw [scopeTags_extendBinders]
  exact h.names

theorem InferState.Follows.declares {ds : List Declaration} {s s' : InferState}
    {scope : NameScope} (h : InferState.Follows ds s s') (hds : ∀ d ∈ ds, d ∈ Δ)
    (hs : Declares Δ s scope) : Declares Δ s' scope := by
  refine ⟨fun c hc => ?_, fun entry hentry => ?_⟩
  · rw [h.signatures, List.map_append]
    exact List.mem_append_right _ (hs.names c hc)
  · rw [h.signatures, List.mem_append, List.mem_reverse, List.mem_map] at hentry
    rcases hentry with ⟨d, hd, rfl⟩ | hentry
    · exact ⟨d, hds d hd, rfl⟩
    · exact hs.declared entry hentry

/-- A step that declares nothing leaves constructors as they are. -/
theorem InferState.Follows.keeps {s s' : InferState} {scope : NameScope}
    (h : InferState.Follows [] s s') (hs : Declares Δ s scope) : Declares Δ s' scope :=
  h.declares (fun _ h => nomatch h) hs

variable {s : InferState}

theorem fresh_failsFrom : FailsFrom ok fresh s := (FailsOnly.modifyGet _).from s

theorem constrain_failsFrom {t u : Ty} {position : Position} :
    FailsFrom ok (constrain t u position) s := by
  unfold constrain
  dsimp only
  split
  · exact .pure _
  · exact (FailsOnly.modifyGet _).from s

theorem ascribedOrFresh_failsFrom {ascription : Option TypeExpr} :
    FailsFrom ok (ascribedOrFresh ascription) s := by
  cases ascription with
  | none => exact fresh_failsFrom
  | some a => exact .pure _

theorem constraintCount_failsFrom : FailsFrom ok constraintCount s :=
  .bind (FailsOnly.get.from s) fun _ _ _ => .pure _

theorem constraintsAround_failsFrom {k : Nat} : FailsFrom ok (constraintsAround k) s :=
  .bind (FailsOnly.get.from s) fun _ _ _ => .pure _

theorem freshCopies_failsFrom : ∀ {vs : VarSet} {s : InferState}, FailsFrom ok (freshCopies vs) s
  | [], _ => .pure _
  | _ :: _, _ => .bind fresh_failsFrom fun _ _ _ => .bind freshCopies_failsFrom fun _ _ _ => .pure _

theorem instantiate_failsFrom {schema : Schema} : FailsFrom ok (instantiate schema) s :=
  .bind freshCopies_failsFrom fun _ s₁ _ =>
    .bind ((FailsOnly.modifyGet _).from s₁) fun _ _ _ => .pure _

theorem resolveNow_failsFrom {t : Ty} :
    FailsFrom CompileError.IsTypeClash (resolveNow t) s := by
  refine .bind (FailsOnly.get.from s) fun s₁ s₂ _ => ?_
  split
  · exact .bind ((FailsOnly.set _).from s₂) fun _ _ _ => .pure _
  · next e he => exact .throw (unifyFrom_error he)

end Types

/-! ## 3. Patterns, constructors and groups -/

variable {tags : List (String × Nat)}

mutual

/-- Inference binds the names that resolution has given to a pattern. -/
theorem RenamesPattern.names_eq : ∀ {p p' p'' : Node} {pairs : List (String × String)} {t : Ty}
    {bindings : List (String × Binding)} {s s' : InferState}, RenamesPattern tags p p' pairs →
      InfersPattern p' s p'' t bindings s' → bindings.map Prod.fst = pairs.map Prod.snd
  | _, _, _, _, _, _, _, _, .binder, h => by
    cases h
    rfl
  | _, _, _, _, _, _, _, _, .literal, h => by
    cases h
    rfl
  | _, _, _, _, _, _, _, _, .tuple _ hps, h => by
    cases h with
    | tuple hinfers => exact hps.names_eq hinfers
  | _, _, _, _, _, _, _, _, .constructor _ hps, h => by
    cases h with
    | constructor _ _ hinfers => exact hps.argumentNames_eq hinfers

theorem RenamesPatterns.names_eq : ∀ {ps ps' ps'' : List Node} {pairs : List (String × String)}
    {ts : List Ty} {bindings : List (String × Binding)} {s s' : InferState},
      RenamesPatterns tags ps ps' pairs → InfersPatterns ps' s ps'' ts bindings s' →
      bindings.map Prod.fst = pairs.map Prod.snd
  | _, _, _, _, _, _, _, _, .nil, h => by
    cases h
    rfl
  | _, _, _, _, _, _, _, _, .cons hp hps, h => by
    cases h with
    | cons hinfer hinfers =>
      rw [List.map_append, List.map_append, hp.names_eq hinfer, hps.names_eq hinfers]

theorem RenamesPatterns.argumentNames_eq : ∀ {ps ps' ps'' : List Node}
    {pairs : List (String × String)} {ts : List Ty} {bindings : List (String × Binding)}
    {s s' : InferState}, RenamesPatterns tags ps ps' pairs →
      InfersArguments ps' ts s ps'' bindings s' → bindings.map Prod.fst = pairs.map Prod.snd
  | _, _, _, _, _, _, _, _, .nil, h => by
    cases h
    rfl
  | _, _, _, _, _, _, _, _, .cons hp hps, h => by
    cases h with
    | cons hinfer _ hinfers =>
      rw [List.map_append, List.map_append, hp.names_eq hinfer, hps.argumentNames_eq hinfers]

end

mutual

theorem RenamesPattern.infer_failsFrom {scope : NameScope} : ∀ {p p' : Node}
    {pairs : List (String × String)} {s : InferState}, RenamesPattern (scopeTags scope) p p' pairs →
      p'.Everywhere (Allows Δ ok) → Declares Δ s scope → FailsFrom ok (inferPattern p') s
  | _, _, _, _, .binder, _, _ => .bind fresh_failsFrom fun _ _ _ => .pure _
  | _, _, _, _, .literal, _, _ => .pure _
  | _, _, _, _, .tuple _ hps, hp, hs =>
    .bind (hps.infer_failsFrom (fun c hc => hp.child hc) hs) fun _ _ _ => .pure _
  | _, .patternConstructor m c ps (some _), _, s, .constructor hc hps, hp, hs => by
    unfold inferPattern
    refine .bind (FailsOnly.get.from s) fun s₀ s₁ hget => ?_
    obtain ⟨rfl, rfl⟩ := runs_get.1 hget
    obtain ⟨⟨parameters, dataType⟩, hlookup⟩ :=
      exists_lookup_of_mem (hs.names c (List.mem_map_of_mem (f := Prod.fst) hc))
    rw [hlookup]
    obtain ⟨d, hd, hname, rfl, -⟩ := hs.declared.lookup hlookup
    dsimp only
    split
    · next hlength =>
      rw [List.length_map] at hlength ⊢
      exact .throw (hp.here.arity rfl d hd hname hlength)
    · exact .bind (hps.arguments_failsFrom (fun c hc => hp.child hc) hs) fun _ _ _ => .pure _

theorem RenamesPatterns.infer_failsFrom {scope : NameScope} : ∀ {ps ps' : List Node}
    {pairs : List (String × String)} {s : InferState},
      RenamesPatterns (scopeTags scope) ps ps' pairs → (∀ p ∈ ps', p.Everywhere (Allows Δ ok)) →
      Declares Δ s scope → FailsFrom ok (inferPatterns ps') s
  | _, _, _, _, .nil, _, _ => .pure _
  | _, _, _, _, .cons hp hps, hall, hs =>
    .bind (hp.infer_failsFrom (hall _ List.mem_cons_self) hs) fun ⟨_, _, _⟩ _ hrun =>
      .bind (hps.infer_failsFrom (fun c hc => hall c (List.mem_cons_of_mem _ hc))
        ((InfersPattern.of_run hrun).follows.keeps hs)) fun _ _ _ => .pure _

theorem RenamesPatterns.arguments_failsFrom {scope : NameScope} : ∀ {ps ps' : List Node}
    {pairs : List (String × String)} {ts : List Ty} {s : InferState},
      RenamesPatterns (scopeTags scope) ps ps' pairs → (∀ p ∈ ps', p.Everywhere (Allows Δ ok)) →
      Declares Δ s scope → FailsFrom ok (inferArguments ps' ts) s
  | _, _, _, _, _, .nil, _, _ => .pure _
  | _, _, _, [], _, .cons _ _, _, _ => .pure _
  | _, _, _, _ :: _, _, .cons hp hps, hall, hs =>
    .bind (hp.infer_failsFrom (hall _ List.mem_cons_self) hs) fun ⟨_, _, _⟩ _ hrun =>
      .bind constrain_failsFrom fun _ _ hrun' =>
        .bind (hps.arguments_failsFrom (fun c hc => hall c (List.mem_cons_of_mem _ hc))
          ((follows_constrain hrun').keeps ((InfersPattern.of_run hrun).follows.keeps hs)))
          fun _ _ _ => .pure _

end

theorem TagsConstructors.declare_failsFrom {d : String} :
    ∀ {cs cs' : List Node} {new : List (String × Nat)} {Γ : TypeEnvironment} {s : InferState},
      TagsConstructors cs cs' new → FailsFrom ok (Types.declareConstructors d Γ cs') s
  | _, _, _, _, _, .nil => .pure _
  | _, _, _, _, s, .cons hcs =>
    .bind ((FailsOnly.modifyGet _).from s) fun _ _ _ => .bind hcs.declare_failsFrom fun _ _ _ =>
      .pure _

/-- Behind the declaration of a data type, its constructors are bound and declared. -/
theorem TagsConstructors.covers {d : String} {cs cs' cs'' : List Node}
    {new : List (String × Nat)} (h : TagsConstructors cs cs' new) :
    ∀ {Γ Γ' : TypeEnvironment} {s s' : InferState} {scope : NameScope},
      Runs (Types.declareConstructors d Γ cs') s (cs'', Γ') s' → Covers Γ scope →
      (∀ c ∈ Node.declared d cs', c ∈ Δ) → Declares Δ s scope →
      Covers Γ' (extendConstructors scope new) ∧ Declares Δ s' (extendConstructors scope new) := by
  induction h generalizing cs'' with
  | nil =>
    intro Γ Γ' s s' scope hrun hΓ _ hs
    obtain ⟨hrun, rfl⟩ := runs_pure.1 hrun
    cases hrun
    exact ⟨hΓ, hs⟩
  | cons _ ih =>
    intro Γ Γ' s s' scope hrun hΓ hΔ hs
    simp only [Types.declareConstructors, runs_bind, runs_modify, runs_pure] at hrun
    obtain ⟨⟨⟩, _, rfl, ⟨more, inner⟩, s₂, hmore, hrun, rfl⟩ := hrun
    cases hrun
    refine ih hmore (fun y hy => ?_) (fun c hc => hΔ c (List.mem_cons_of_mem _ hc))
      ⟨fun y hy => ?_, fun entry hentry => ?_⟩
    · rcases List.mem_cons.1 hy with rfl | hy
      · exact List.mem_cons_self
      · exact List.mem_cons_of_mem _ (hΓ y hy)
    · rcases List.mem_cons.1 hy with rfl | hy
      · exact List.mem_cons_self
      · exact List.mem_cons_of_mem _ (hs.names y hy)
    · rcases List.mem_cons.1 hentry with rfl | hentry
      · exact ⟨_, hΔ _ List.mem_cons_self, rfl⟩
      · exact hs.declared entry hentry

theorem RenamesGroup.declare_failsFrom {scope : NameScope} :
    ∀ {pairs : List (String × String)} {arms arms' : List Node} {s : InferState},
      RenamesGroup tags scope pairs arms arms' → FailsFrom ok (declareGroup arms') s
  | _, _, _, _, .nil => .pure _
  | _, _, _, _, .cons _ _ hrest =>
    .bind ascribedOrFresh_failsFrom fun _ _ _ => .bind ascribedOrFresh_failsFrom fun _ _ _ =>
      .bind hrest.declare_failsFrom fun _ _ _ => .pure _

/-- The functions of a group are declared under the names that resolution has given them. -/
theorem RenamesGroup.declared_names {scope : NameScope} {pairs : List (String × String)}
    {arms arms' : List Node} {declared : List (String × Ty × Ty)} {s s' : InferState}
    (h : RenamesGroup tags scope pairs arms arms')
    (hruns : Runs (declareGroup arms') s declared s') :
    declared.map Prod.fst = pairs.map Prod.snd := by
  induction arms generalizing pairs arms' declared s s' with
  | nil =>
    cases h
    obtain ⟨rfl, -⟩ := runs_pure.1 hruns
    rfl
  | cons arm arms ih =>
    cases h with
    | cons _ _ hrest =>
      simp only [declareGroup, runs_bind, runs_pure] at hruns
      obtain ⟨p, s₁, -, r, s₂, -, more, s₃, hmore, rfl, rfl⟩ := hruns
      exact congrArg (_ :: ·) (ih hrest hmore)

/-! ## 4. Expressions -/

mutual

/-- **Inference of a tree with its names resolved** ends only with errors that its nodes allow. -/
theorem Renames.infer_failsFrom {g : Generalizer} : ∀ {scope : NameScope} {n n' : Node}
    {Γ : TypeEnvironment} {s : InferState}, Renames tags scope n n' → n'.Everywhere (Allows Δ ok) →
      Covers Γ scope → Declares Δ s scope → FailsFrom ok (n'.infer g Γ) s
  | _, _, _, _, _, .literal, _, _, _ => .pure _
  | _, _, .reference m x', _, _, .reference hx _, _, hΓ, _ => by
    -- resolution has found the name in a scope that the environment covers
    obtain ⟨b, hb⟩ := exists_lookup?_of_mem (hΓ x' (mem_scopeNames_of_lookup? hx))
    unfold Node.infer
    rw [hb]
    cases b with
    | mono t => exact .pure _
    | poly schema => exact .bind instantiate_failsFrom fun _ _ _ => .pure _
  | _, _, .builtin m b, _, _, .builtin, _, _, _ => by
    refine .bind fresh_failsFrom fun t s₁ _ => ?_
    cases b with
    | println => exact .bind (.pure _) fun _ _ _ => .pure _
    | print => exact .bind (.pure _) fun _ _ _ => .pure _
    | panic => exact .bind fresh_failsFrom fun _ _ _ => .pure _
  | _, _, _, _, _, .lambda _ hbody, hn, hΓ, hs =>
    .bind ascribedOrFresh_failsFrom fun t s₁ ht =>
      .bind (hbody.infer_failsFrom (hn.child (.head _)) (hΓ.extend (.mono t))
        ((follows_ascribedOrFresh ht).keeps (hs.binder _ _))) fun _ _ _ => .pure _
  | _, _, _, _, _, .application hf ha, hn, hΓ, hs => by
    have hf' := hn.child (.head _)
    refine .bind (hf.infer_failsFrom hf' hΓ hs) fun ⟨_, _⟩ s₁ hrun => ?_
    have hs₁ := (Infers.of_run hrun).follows.declares hf'.declarations hs
    exact .bind (ha.infer_failsFrom (hn.child (.tail _ (.head _))) hΓ hs₁) fun ⟨_, _⟩ _ _ =>
      .bind fresh_failsFrom fun _ _ _ => .bind constrain_failsFrom fun _ _ _ => .pure _
  | _, _, .letIn m x' a value' body', _, s, .letIn hvalue _ hbody, hn, hΓ, hs => by
    have hvalue' := hn.child (.head _)
    have hbody' := hn.child (.tail _ (.head _))
    refine .bind constraintCount_failsFrom fun _ s₁ hcount => ?_
    obtain ⟨-, rfl⟩ := runs_constraintCount.1 hcount
    refine .bind (hvalue.infer_failsFrom hvalue' hΓ hs) fun ⟨_, _⟩ s₂ hrun => ?_
    have hs₂ := (Infers.of_run hrun).follows.declares hvalue'.declarations hs
    cases a with
    | none =>
      refine .bind constraintsAround_failsFrom fun ⟨_, _⟩ s₃ haround => ?_
      obtain ⟨-, rfl⟩ := runs_constraintsAround.1 haround
      exact .bind (hbody.infer_failsFrom hbody' (hΓ.extend _) (hs₂.binder _ _))
        fun ⟨_, _⟩ _ _ => .pure _
    | some a =>
      refine .bind constrain_failsFrom fun _ s₃ hrun => ?_
      refine .bind constraintsAround_failsFrom fun ⟨_, _⟩ s₄ haround => ?_
      obtain ⟨-, rfl⟩ := runs_constraintsAround.1 haround
      have hs₃ := (follows_constrain hrun).keeps hs₂
      exact .bind (hbody.infer_failsFrom hbody' (hΓ.extend _) (hs₃.binder _ _))
        fun ⟨_, _⟩ _ _ => .pure _
  | _, _, _, _, _, .letRec _ _ harms hbody, hn, hΓ, hs => by
    have harms' : ∀ c ∈ _, Everywhere (Allows Δ ok) c :=
      fun c hc => hn.child (List.mem_append_left _ hc)
    refine .bind harms.declare_failsFrom fun declared s₁ hdeclared => ?_
    have hnames := harms.declared_names hdeclared
    have hs₁ := (follows_declareGroup hdeclared).keeps hs
    refine .bind constraintCount_failsFrom fun _ _ hcount => ?_
    obtain ⟨-, rfl⟩ := runs_constraintCount.1 hcount
    refine .bind (harms.infer_failsFrom harms' (hΓ.extendAll ?_) (hs₁.extendBinders _))
      fun _ s₂ hrun => .bind constraintsAround_failsFrom fun ⟨_, _⟩ s₃ haround => ?_
    · rw [List.map_map]
      exact hnames
    · obtain ⟨-, rfl⟩ := runs_constraintsAround.1 haround
      have hs₂ := (InfersGroup.of_run hdeclared hrun).follows.declares
        (declarationsAll_of_allows harms') hs₁
      refine .bind (hbody.infer_failsFrom (hn.child (by simp [children])) (hΓ.extendAll ?_)
        (hs₂.extendBinders _)) fun ⟨_, _⟩ _ _ => .pure _
      rw [List.map_map]
      exact hnames
  | _, _, _, _, _, .conditional hc ha hb, hn, hΓ, hs => by
    have hc' := hn.child (.head _)
    have ha' := hn.child (.tail _ (.head _))
    refine .bind (hc.infer_failsFrom hc' hΓ hs) fun ⟨_, _⟩ _ hrun =>
      .bind constrain_failsFrom fun _ _ hrun' => ?_
    have hs₂ := (follows_constrain hrun').keeps
      ((Infers.of_run hrun).follows.declares hc'.declarations hs)
    refine .bind (ha.infer_failsFrom ha' hΓ hs₂) fun ⟨_, _⟩ _ hrun => ?_
    have hs₃ := (Infers.of_run hrun).follows.declares ha'.declarations hs₂
    exact .bind (hb.infer_failsFrom (hn.child (.tail _ (.tail _ (.head _)))) hΓ hs₃)
      fun ⟨_, _⟩ _ _ => .bind constrain_failsFrom fun _ _ _ => .pure _
  | _, _, .binary m o l r, _, _, .binary hl hr, hn, hΓ, hs => by
    have hl' := hn.child (.head _)
    refine .bind (hl.infer_failsFrom hl' hΓ hs) fun ⟨_, _⟩ _ hrun => ?_
    have hs₁ := (Infers.of_run hrun).follows.declares hl'.declarations hs
    refine .bind (hr.infer_failsFrom (hn.child (.tail _ (.head _))) hΓ hs₁) fun ⟨_, _⟩ _ _ => ?_
    dsimp only
    cases o.operatorClass with
    | arithmetic | relational =>
      exact .bind constrain_failsFrom fun _ _ _ => .bind constrain_failsFrom fun _ _ _ => .pure _
    | equality => exact .bind constrain_failsFrom fun _ _ _ => .pure _
  | _, _, _, _, _, .unary he, hn, hΓ, hs =>
    .bind (he.infer_failsFrom (hn.child (.head _)) hΓ hs) fun ⟨_, _⟩ _ _ =>
      .bind constrain_failsFrom fun _ _ _ => .pure _
  | _, _, _, _, _, .sequence _ hes, hn, hΓ, hs =>
    .bind (hes.infer_failsFrom (fun c hc => hn.child hc) hΓ hs) fun ⟨_, _⟩ _ _ => .pure _
  | _, _, _, _, _, .tuple _ hes, hn, hΓ, hs =>
    .bind (hes.infer_failsFrom (fun c hc => hn.child hc) hΓ hs) fun ⟨_, _⟩ _ _ => .pure _
  | _, _, _, _, _, .projection he, hn, hΓ, hs => by
    have hclash := hn.here.projection rfl
    refine .bind (he.infer_failsFrom (hn.child (.head _)) hΓ hs) fun ⟨_, _⟩ _ _ =>
      .bind (fun e h => hclash e (resolveNow_failsFrom e h)) fun t _ _ => ?_
    -- no tuple, or none with such a component: these are errors that the node allows
    cases t with
    | tuple ts =>
      dsimp only
      split
      · exact .pure _
      · exact .throw (hclash _ trivial)
    | _ => exact .throw (hclash _ trivial)
  | _, _, _, _, _, .dataType hcs _ _ hbody, hn, hΓ, hs =>
    .bind hcs.declare_failsFrom fun ⟨_, _⟩ _ hrun =>
      have h := hcs.covers hrun (hΓ.dataType _) hn.here.declares (hs.dataType _)
      .bind (hbody.infer_failsFrom (hn.child (by simp [children])) h.1 h.2)
        fun ⟨_, _⟩ _ _ => .pure _
  | _, _, _, _, _, .matchWith he harms, hn, hΓ, hs => by
    have he' := hn.child (.head _)
    refine .bind (he.infer_failsFrom he' hΓ hs) fun ⟨_, _⟩ _ hrun =>
      .bind fresh_failsFrom fun _ _ hrun' => ?_
    have hs₂ :=
      (follows_fresh hrun').keeps ((Infers.of_run hrun).follows.declares he'.declarations hs)
    exact .bind (harms.infer_failsFrom (fun c hc => hn.child (List.mem_cons_of_mem _ hc)) hΓ hs₂)
      fun _ _ _ => .pure _

theorem RenamesAll.infer_failsFrom {g : Generalizer} : ∀ {scope : NameScope} {ns ns' : List Node}
    {Γ : TypeEnvironment} {s : InferState}, RenamesAll tags scope ns ns' →
      (∀ n ∈ ns', n.Everywhere (Allows Δ ok)) → Covers Γ scope → Declares Δ s scope →
      FailsFrom ok (Node.inferAll g Γ ns') s
  | _, _, _, _, _, .nil, _, _, _ => .pure _
  | _, _, _, _, _, .cons hn hns, hall, hΓ, hs => by
    have hn' := hall _ List.mem_cons_self
    refine .bind (hn.infer_failsFrom hn' hΓ hs) fun ⟨_, _⟩ _ hrun => ?_
    have hs₁ := (Infers.of_run hrun).follows.declares hn'.declarations hs
    exact .bind (hns.infer_failsFrom (fun c hc => hall c (List.mem_cons_of_mem _ hc)) hΓ hs₁)
      fun ⟨_, _⟩ _ _ => .pure _

theorem RenamesGroup.infer_failsFrom {g : Generalizer} : ∀ {scope : NameScope}
    {pairs : List (String × String)} {ns ns' : List Node} {Γ : TypeEnvironment}
    {types : List (Ty × Ty)} {s : InferState}, RenamesGroup tags scope pairs ns ns' →
      (∀ n ∈ ns', n.Everywhere (Allows Δ ok)) → Covers Γ scope → Declares Δ s scope →
      FailsFrom ok (Node.inferGroup g Γ ns' types) s
  | _, _, _, _, _, _, _, .nil, _, _, _ => .pure _
  | _, _, _, _, _, [], _, .cons _ _ _, _, _, _ => .pure _
  | _, _, _, _, _, (p, _) :: _, _, .cons _ hbody hrest, hall, hΓ, hs => by
    have hbody' := (hall _ List.mem_cons_self).child (.head _)
    refine .bind (hbody.infer_failsFrom hbody' (hΓ.extend (.mono p)) (hs.binder _ _))
      fun ⟨_, _⟩ _ hrun => .bind constrain_failsFrom fun _ _ hrun' => ?_
    have hs₂ := (follows_constrain hrun').keeps
      ((Infers.of_run hrun).follows.declares hbody'.declarations hs)
    exact .bind (hrest.infer_failsFrom (fun c hc => hall c (List.mem_cons_of_mem _ hc)) hΓ hs₂)
      fun _ _ _ => .pure _

theorem RenamesArms.infer_failsFrom {g : Generalizer} : ∀ {scope : NameScope}
    {ns ns' : List Node} {Γ : TypeEnvironment} {t r : Ty} {s : InferState},
      RenamesArms tags scope ns ns' → (∀ n ∈ ns', n.Everywhere (Allows Δ ok)) → Covers Γ scope →
      Declares Δ s scope → FailsFrom ok (Node.inferArms g Γ t r ns') s
  | _, _, _, _, _, _, _, .nil, _, _, _ => .pure _
  | _, _, _, _, _, _, _, .cons hp hscope _ hbody hrest, hall, hΓ, hs => by
    have harm := hall _ List.mem_cons_self
    have hbody' := harm.child (.tail _ (.head _))
    refine .bind (hscope.infer_failsFrom (harm.child (.head _)) hs) fun ⟨_, _, _⟩ _ hrun =>
      .bind constrain_failsFrom fun _ _ hrun' => ?_
    have hs₂ := (follows_constrain hrun').keeps ((InfersPattern.of_run hrun).follows.keeps hs)
    have hΓ' := hΓ.extendAll (hp.names_eq (InfersPattern.of_run hrun))
    refine .bind (hbody.infer_failsFrom hbody' hΓ' (hs₂.extendBinders _)) fun ⟨_, _⟩ _ hrun =>
      .bind constrain_failsFrom fun _ _ hrun' => ?_
    have hs₄ := (follows_constrain hrun').keeps
      ((Infers.of_run hrun).follows.declares hbody'.declarations hs₂)
    exact .bind (hrest.infer_failsFrom (fun c hc => hall c (List.mem_cons_of_mem _ hc)) hΓ hs₄)
      fun _ _ _ => .pure _

end

/-- Inference of a program with its names resolved ends only with errors that its nodes allow. -/
theorem RenamesProgram.inferTypes_allowed {n n' : Node} {e : CompileError}
    (h : RenamesProgram tags n n') (hallows : n'.Everywhere (Allows Δ ok))
    (hn : n'.inferTypes = .error e) : ok e := by
  cases h with
  | @mk m e₀ e₁ he =>
    unfold Node.inferTypes Node.inferTypesBy at hn
    split at hn
    · cases hn
    · next e' s hrun =>
      cases hn
      have hnone : Declares Δ InferState.empty .empty :=
        ⟨fun _ h => (nomatch h), fun _ h => nomatch h⟩
      have hfails : FailsFrom ok (Node.infer generalize .empty (.top m e₁)) InferState.empty :=
        .bind (he.infer_failsFrom (hallows.child (.head _)) (fun _ h => (nomatch h)) hnone)
          fun ⟨_, _⟩ _ _ => .pure _
      exact hfails e ⟨s, hrun⟩

/-- **Inference of a program with its names resolved** ends only with errors about types. -/
theorem RenamesProgram.inferTypes_error {n n' : Node} {e : CompileError}
    (h : RenamesProgram tags n n') (hn : n'.inferTypes = .error e) : e.IsTypeClash :=
  h.inferTypes_allowed ((n'.everywhere_declaredHere fun _ hd => hd).imp fun _ hm =>
    allows_isTypeClash hm) hn

end ClosureML
