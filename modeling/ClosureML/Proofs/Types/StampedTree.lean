import ClosureML.Proofs.Types.MostGeneralUnifier
import ClosureML.Proofs.Types.Typing

/-!
# The types in an accepted tree fit together

Inference writes into the marks of a tree what it knows at the time: variables, types that mention
them, and for a projection what the equations collected by then say. The solution of all equations
is written in once at the end. Every node then has a type, no variable that was solved is left, and
at every node the types of the node and of its children keep the rule for this construct.

* `IsAscribed`: a type is the one of an ascription, if there is one;
* `StampedPattern` and `AreStampedConstructors`: patterns and constructors whose types fit together;
* `Stamped Δ Γ n t`: the types in a tree fit together, `t` is the one of its root, and a name with a
  single type has it wherever the name is used.

Main statements: `Infers.stamped` (what a run of inference leaves behind) and
`Source.IsTyped.stamps_consistent`.
-/

namespace ClosureML

open ClosureML.Types Node

/-! ## 1. Types that fit together -/

/-- The type is the one of the ascription, if there is one. -/
def IsAscribed (ascription : Option TypeExpr) (t : Ty) : Prop := ∀ a ∈ ascription, t = a.toTy

mutual

/-- The types in a pattern fit together. The pattern has this type, and binds names to these. The
    pattern of a constructor has the data type of a declaration, and its arguments the types that
    the declaration gives to its parameters. -/
inductive StampedPattern (Δ : List Declaration) : Node → Ty → List (String × Ty) → Prop where
  | binder {m : Mark} {x : String} {t : Ty} (hm : m.ty = some t) :
      StampedPattern Δ (.patternBinder m x) t [(x, t)]
  | literal {m : Mark} {v : Literal} (hm : m.ty = some (literalType v)) :
      StampedPattern Δ (.patternLiteral m v) (literalType v) []
  | tuple {m : Mark} {ps : List Node} {ts : List Ty} {names : List (String × Ty)}
      (hm : m.ty = some (.tuple ts)) (hps : StampedPatterns Δ ps ts names) :
      StampedPattern Δ (.patternTuple m ps) (.tuple ts) names
  | constructor {m : Mark} {d : Declaration} {ps : List Node} {tag : Option Nat}
      {names : List (String × Ty)} (hd : d ∈ Δ) (hm : m.ty = some (.data d.dataType))
      (hps : StampedPatterns Δ ps (d.parameters.map TypeExpr.toTy) names) :
      StampedPattern Δ (.patternConstructor m d.name ps tag) (.data d.dataType) names

/-- The types in several patterns fit together. -/
inductive StampedPatterns (Δ : List Declaration) :
    List Node → List Ty → List (String × Ty) → Prop where
  | nil : StampedPatterns Δ [] [] []
  | cons {p : Node} {ps : List Node} {t : Ty} {ts : List Ty} {names more : List (String × Ty)}
      (hp : StampedPattern Δ p t names) (hps : StampedPatterns Δ ps ts more) :
      StampedPatterns Δ (p :: ps) (t :: ts) (names ++ more)

end

/-- A constructor has the type of a function from its parameters, one after the other, to its data
    type. -/
def Declaration.stamp (d : Declaration) : Ty :=
  constructorType (d.parameters.map TypeExpr.toTy) (.data d.dataType)

/-- The constructors of a data type have their types. -/
inductive AreStampedConstructors (dataType : String) : List Node → Prop where
  | nil : AreStampedConstructors dataType []
  | cons {m : Mark} {c : String} {parameters : List TypeExpr} {tag : Option Nat} {cs : List Node}
      (hm : m.ty = some (Declaration.stamp ⟨c, parameters, dataType⟩))
      (hcs : AreStampedConstructors dataType cs) :
      AreStampedConstructors dataType (.dataConstructor m c parameters tag :: cs)

/-- What is known of the types of names, the innermost first. A name behind a `let` has no single
    type: each of its uses has one. -/
abbrev Stamps := List (String × Option Ty)

/-- Names of one type each, the last of them innermost. -/
def Stamps.of (names : List (String × Ty)) : Stamps :=
  (names.map fun (x, t) => (x, some t)).reverse

/-- The functions of a group inside the group, where each of them has one type. -/
def Stamps.inGroup (entries : List (String × Ty × Ty)) : Stamps :=
  (entries.map fun (f, p, r) => (f, some (.function p r))).reverse

/-- The functions of a group behind the group. -/
def Stamps.behindGroup (entries : List (String × Ty × Ty)) : Stamps :=
  (entries.map fun (f, _, _) => (f, none)).reverse

mutual

/-- **The types in a tree fit together**: the mark of each node holds its type, and these types keep
    the rule for the construct. -/
inductive Stamped (Δ : List Declaration) : Stamps → Node → Ty → Prop where
  | top {Γ : Stamps} {m : Mark} {e : Node} {t : Ty} (hm : m.ty = some t) (he : Stamped Δ Γ e t) :
      Stamped Δ Γ (.top m e) t
  | literal {Γ : Stamps} {m : Mark} {v : Literal} (hm : m.ty = some (literalType v)) :
      Stamped Δ Γ (.literal m v) (literalType v)
  | reference {Γ : Stamps} {m : Mark} {x : String} {t : Ty} (hm : m.ty = some t)
      (hx : Γ.lookup x = some none ∨ Γ.lookup x = some (some t)) : Stamped Δ Γ (.reference m x) t
  | builtin {Γ : Stamps} {m : Mark} {b : Builtin} {p r : Ty} (hm : m.ty = some (.function p r))
      (hr : b ≠ .panic → r = .unit) : Stamped Δ Γ (.builtin m b) (.function p r)
  | lambda {Γ : Stamps} {m : Mark} {x : String} {a : Option TypeExpr} {body : Node} {p r : Ty}
      (hm : m.ty = some (.function p r)) (ha : IsAscribed a p)
      (hbody : Stamped Δ ((x, some p) :: Γ) body r) :
      Stamped Δ Γ (.lambda m x a body) (.function p r)
  | application {Γ : Stamps} {m : Mark} {f a : Node} {p r : Ty} (hm : m.ty = some r)
      (hf : Stamped Δ Γ f (.function p r)) (ha : Stamped Δ Γ a p) :
      Stamped Δ Γ (.application m f a) r
  | letIn {Γ : Stamps} {m : Mark} {x : String} {a : Option TypeExpr} {value body : Node} {t u : Ty}
      (hm : m.ty = some u) (hvalue : Stamped Δ Γ value t) (ha : IsAscribed a t)
      (hbody : Stamped Δ ((x, none) :: Γ) body u) : Stamped Δ Γ (.letIn m x a value body) u
  | letRec {Γ : Stamps} {m : Mark} {arms : List Node} {body : Node}
      {entries : List (String × Ty × Ty)} {u : Ty} (hm : m.ty = some u)
      (harms : AreStampedFunctions Δ (Stamps.inGroup entries ++ Γ) arms entries)
      (hbody : Stamped Δ (Stamps.behindGroup entries ++ Γ) body u) :
      Stamped Δ Γ (.letRec m arms body) u
  | conditional {Γ : Stamps} {m : Mark} {c t e : Node} {u : Ty} (hm : m.ty = some u)
      (hc : Stamped Δ Γ c .bool) (ht : Stamped Δ Γ t u) (he : Stamped Δ Γ e u) :
      Stamped Δ Γ (.conditional m c t e) u
  | arithmetic {Γ : Stamps} {m : Mark} {o : BinaryOperator} {l r : Node} (hm : m.ty = some .int)
      (ho : o.operatorClass = .arithmetic) (hl : Stamped Δ Γ l .int) (hr : Stamped Δ Γ r .int) :
      Stamped Δ Γ (.binary m o l r) .int
  | relational {Γ : Stamps} {m : Mark} {o : BinaryOperator} {l r : Node} (hm : m.ty = some .bool)
      (ho : o.operatorClass = .relational) (hl : Stamped Δ Γ l .int) (hr : Stamped Δ Γ r .int) :
      Stamped Δ Γ (.binary m o l r) .bool
  | equality {Γ : Stamps} {m : Mark} {o : BinaryOperator} {l r : Node} {t : Ty}
      (hm : m.ty = some .bool) (ho : o.operatorClass = .equality) (hl : Stamped Δ Γ l t)
      (hr : Stamped Δ Γ r t) : Stamped Δ Γ (.binary m o l r) .bool
  | unary {Γ : Stamps} {m : Mark} {o : UnaryOperator} {e : Node} (hm : m.ty = some .int)
      (he : Stamped Δ Γ e .int) : Stamped Δ Γ (.unary m o e) .int
  | sequence {Γ : Stamps} {m : Mark} {es : List Node} {ts : List Ty}
      (hm : m.ty = some (ts.getLastD .unit)) (hes : AreStamped Δ Γ es ts) :
      Stamped Δ Γ (.sequence m es) (ts.getLastD .unit)
  | tuple {Γ : Stamps} {m : Mark} {es : List Node} {ts : List Ty} (hm : m.ty = some (.tuple ts))
      (hes : AreStamped Δ Γ es ts) : Stamped Δ Γ (.tuple m es) (.tuple ts)
  | projection {Γ : Stamps} {m : Mark} {index n : Nat} {e : Node} {ts : List Ty} {t : Ty}
      (hm : m.ty = some t) (hn : ts.length = n) (hindex : index < n) (ht : ts[index]? = some t)
      (he : Stamped Δ Γ e (.tuple ts)) : Stamped Δ Γ (.projection m index (some n) e) t
  | dataType {Γ : Stamps} {m : Mark} {d : String} {cs : List Node} {body : Node} {u : Ty}
      (hm : m.ty = some u) (hcs : AreStampedConstructors d cs) (hΔ : ∀ c ∈ declared d cs, c ∈ Δ)
      (hbody : Stamped Δ (Stamps.of ((declared d cs).map fun c => (c.name, c.stamp)) ++ Γ) body u) :
      Stamped Δ Γ (.dataType m d cs body) u
  | matchWith {Γ : Stamps} {m : Mark} {e : Node} {arms : List Node} {t r : Ty} (hm : m.ty = some r)
      (he : Stamped Δ Γ e t) (harms : AreStampedArms Δ Γ t arms r) :
      Stamped Δ Γ (.matchWith m e arms) r

/-- The types in several trees fit together. -/
inductive AreStamped (Δ : List Declaration) : Stamps → List Node → List Ty → Prop where
  | nil {Γ : Stamps} : AreStamped Δ Γ [] []
  | cons {Γ : Stamps} {n : Node} {ns : List Node} {t : Ty} {ts : List Ty} (hn : Stamped Δ Γ n t)
      (hns : AreStamped Δ Γ ns ts) : AreStamped Δ Γ (n :: ns) (t :: ts)

/-- The types in the functions of a group fit together: each is a function from the type of its
    parameter to the type of its body, both those of the ascriptions where there are any. -/
inductive AreStampedFunctions (Δ : List Declaration) :
    Stamps → List Node → List (String × Ty × Ty) → Prop where
  | nil {Γ : Stamps} : AreStampedFunctions Δ Γ [] []
  | cons {Γ : Stamps} {m : Mark} {f x : String} {pa ra : Option TypeExpr} {body : Node}
      {rest : List Node} {p r : Ty} {entries : List (String × Ty × Ty)}
      (hm : m.ty = some (.function p r)) (hp : IsAscribed pa p) (hr : IsAscribed ra r)
      (hbody : Stamped Δ ((x, some p) :: Γ) body r) (hrest : AreStampedFunctions Δ Γ rest entries) :
      AreStampedFunctions Δ Γ (.letRecArm m f x pa ra body :: rest) ((f, p, r) :: entries)

/-- The types in the arms of a `match` fit together: patterns have the type of the scrutinee, bodies
    and the arms themselves that of the whole. -/
inductive AreStampedArms (Δ : List Declaration) : Stamps → Ty → List Node → Ty → Prop where
  | nil {Γ : Stamps} {t r : Ty} : AreStampedArms Δ Γ t [] r
  | cons {Γ : Stamps} {m : Mark} {p body : Node} {rest : List Node} {t r : Ty}
      {names : List (String × Ty)} (hm : m.ty = some r) (hp : StampedPattern Δ p t names)
      (hbody : Stamped Δ (Stamps.of names ++ Γ) body r) (hrest : AreStampedArms Δ Γ t rest r) :
      AreStampedArms Δ Γ t (.matchArm m p body :: rest) r

end

/-! ## 2. Applying a solution -/

/-- The trees with the bound variables of every type replaced. -/
def Node.applyTypesAll (σ : Substitution) (ns : List Node) : List Node :=
  mapAllMarks (fun m => ⟨m.position, m.ty.map σ.apply⟩) ns

section Apply

variable {σ : Substitution}

theorem Substitution.apply_tuple (ts : List Ty) : σ.apply (.tuple ts) = .tuple (ts.map σ.apply) :=
  congrArg Ty.tuple (Ty.substituteAll_eq_map _ ts)

/-- The types of ascriptions hold no variables. -/
theorem Substitution.apply_toTy (e : TypeExpr) : σ.apply e.toTy = e.toTy :=
  Ty.substitute_eq_self _ fun v hv => by
    rw [TypeExpr.occurrences_toTy] at hv
    cases hv

theorem Substitution.map_apply_toTy (es : List TypeExpr) :
    (es.map TypeExpr.toTy).map σ.apply = es.map TypeExpr.toTy := by
  rw [List.map_map]
  exact List.map_congr_left fun e _ => apply_toTy e

theorem Substitution.apply_stamp (d : Declaration) : σ.apply d.stamp = d.stamp := by
  obtain ⟨c, parameters, dataType⟩ := d
  induction parameters with
  | nil => rfl
  | cons e rest ih => exact congrArg₂ Ty.function (apply_toTy e) ih

theorem Substitution.apply_getLastD (ts : List Ty) :
    σ.apply (ts.getLastD .unit) = (ts.map σ.apply).getLastD .unit := by
  rw [List.getLastD_eq_getLast?, List.getLastD_eq_getLast?, List.getLast?_map]
  cases ts.getLast? <;> rfl

theorem IsAscribed.apply {a : Option TypeExpr} {t : Ty} (h : IsAscribed a t) :
    IsAscribed a (σ.apply t) := fun e he => by rw [h e he, Substitution.apply_toTy]

/-- Types that stand for the same under a solution become the same type. -/
theorem apply_eq_of_interpret_eq {t u : Ty}
    (h : t.interpret (Ty.valuation σ.find?) = u.interpret (Ty.valuation σ.find?)) :
    σ.apply t = σ.apply u := by
  rw [Ty.interpret_valuation, Ty.interpret_valuation] at h
  exact Ty.eq_of_lift_eq _ _ h

/-- An equation that was added makes its sides the same type. -/
theorem Types.apply_eq_of_constrain {t u : Ty} {position : Position} {s s' : InferState}
    (h : Runs (constrain t u position) s () s')
    (hσ : Solves (Ty.valuation σ.find?) s'.constraints.toList) : σ.apply t = σ.apply u :=
  apply_eq_of_interpret_eq (interpret_eq_of_constrain h hσ)

/-- What was found on the way becomes the type that it was found for: the later solution refines the
    earlier one. -/
theorem Types.apply_eq_of_resolveNow {t u : Ty} {s s' : InferState} (h : Runs (resolveNow t) s u s')
    (hs : s.Sound) (hσ : Solves (Ty.valuation σ.find?) s'.constraints.toList) :
    σ.apply u = σ.apply t :=
  apply_eq_of_interpret_eq (interpret_resolveNow h hs hσ)

theorem Types.isAscribed_of_ascribedOrFresh {a : Option TypeExpr} {t : Ty} {s s' : InferState}
    (h : Runs (ascribedOrFresh a) s t s') : IsAscribed a (σ.apply t) := by
  refine IsAscribed.apply ?_
  rintro e rfl
  exact (runs_pure.1 h).1.symm

theorem Types.isAscribed_of_agrees {a : Option TypeExpr} {t : Ty} {position : Position}
    {s s' : InferState} (h : Agrees t position a s s')
    (hσ : Solves (Ty.valuation σ.find?) s'.constraints.toList) : IsAscribed a (σ.apply t) := by
  rintro e rfl
  rw [apply_eq_of_constrain h hσ, Substitution.apply_toTy]

end Apply

/-! ## 3. Names -/

/-- The name of a binding, with its type when the uses of the name must have this one. -/
def Types.StampFits (σ : Substitution) (entry : String × Binding) (stamp : String × Option Ty) :
    Prop :=
  entry.1 = stamp.1 ∧ ∀ u ∈ stamp.2, ∃ t, entry.2 = .mono t ∧ u = σ.apply t

/-- What is known of the names of an environment. -/
abbrev Types.StampsFit (σ : Substitution) (Γ : TypeEnvironment) (stamps : Stamps) : Prop :=
  List.Forall₂ (StampFits σ) Γ.toList stamps

namespace Types

variable {σ : Substitution} {Γ : TypeEnvironment} {stamps : Stamps}

theorem StampsFit.mono (h : StampsFit σ Γ stamps) (x : String) (t : Ty) :
    StampsFit σ (Γ.extend (x, .mono t)) ((x, some (σ.apply t)) :: stamps) :=
  .cons ⟨rfl, fun _ hu => ⟨t, rfl, (Option.mem_some_iff.1 hu).symm⟩⟩ h

theorem StampsFit.free (h : StampsFit σ Γ stamps) (x : String) (b : Binding) :
    StampsFit σ (Γ.extend (x, b)) ((x, none) :: stamps) :=
  .cons ⟨rfl, fun _ hu => nomatch hu⟩ h

/-- Bindings that fit one by one, the last of them innermost. -/
theorem StampsFit.extendAll (h : StampsFit σ Γ stamps) {α : Type} {binding : α → String × Binding}
    {stamp : α → String × Option Ty} {as : List α}
    (hfits : ∀ a ∈ as, StampFits σ (binding a) (stamp a)) :
    StampsFit σ (Γ.extendAll (as.map binding)) ((as.map stamp).reverse ++ stamps) := by
  rw [StampsFit, Scope.toList_extendAll]
  refine List.rel_append (List.rel_reverse ?_) h
  rw [List.forall₂_map_left_iff, List.forall₂_map_right_iff, List.forall₂_same]
  exact hfits

/-- A name that must have one type is bound to it. -/
theorem StampsFit.lookup {bindings : List (String × Binding)} {x : String} {b : Binding}
    (h : List.Forall₂ (StampFits σ) bindings stamps) (hx : lookup? ⟨bindings⟩ x = some b) :
    ∃ stamp, stamps.lookup x = some stamp ∧ ∀ u ∈ stamp, ∃ t, b = .mono t ∧ u = σ.apply t := by
  induction h with
  | nil => cases hx
  | @cons entry stamp _ _ hentry _ ih =>
    obtain ⟨y, c⟩ := entry
    obtain ⟨z, o⟩ := stamp
    obtain ⟨rfl, hfits⟩ := hentry
    rw [lookup?, Scope.findSome?, List.findSome?_cons] at hx
    by_cases hy : y = x
    · subst hy
      simp only [if_true, Option.some.injEq] at hx
      exact ⟨o, List.lookup_cons_self, hx ▸ hfits⟩
    · simp only [hy, if_false] at hx
      obtain ⟨stamp, hstamp, hfits⟩ := ih hx
      refine ⟨stamp, ?_, hfits⟩
      rw [List.lookup_cons, beq_false_of_ne (Ne.symm hy)]
      exact hstamp

end Types

/-! ## 4. Patterns and constructors -/

variable {Δ : List Declaration} {σ : Substitution}

/-- Names with their types, the bound variables of which are replaced. -/
def Types.applyNames (σ : Substitution) (names : List (String × Ty)) : List (String × Ty) :=
  names.map fun (x, t) => (x, σ.apply t)

theorem Types.StampsFit.names {Γ : TypeEnvironment} {stamps : Stamps} (h : StampsFit σ Γ stamps)
    (names : List (String × Ty)) :
    StampsFit σ (Γ.extendAll (monoBindings names)) (Stamps.of (applyNames σ names) ++ stamps) := by
  rw [Stamps.of, applyNames, List.map_map]
  exact h.extendAll fun a _ => ⟨rfl, fun _ hu => ⟨a.2, rfl, (Option.mem_some_iff.1 hu).symm⟩⟩

mutual

/-- **A run on a pattern leaves types that fit together**, once a solution is written in. -/
theorem InfersPattern.stamped {n n' : Node} {t : Ty} {bindings : List (String × Binding)}
    {s s' : InferState} : InfersPattern n s n' t bindings s' → Declared Δ s' →
      Solves (Ty.valuation σ.find?) s'.constraints.toList → ∃ names, bindings = monoBindings names ∧
        StampedPattern Δ (n'.applyTypes σ) (σ.apply t) (applyNames σ names)
  | .binder (x := x) (t := t) _, _, _ => ⟨[(x, t)], rfl, .binder rfl⟩
  | .literal, _, _ => ⟨[], rfl, .literal rfl⟩
  | .tuple hps, hΔ, hσ => by
    obtain ⟨names, rfl, h⟩ := hps.stamped hΔ hσ
    refine ⟨names, rfl, ?_⟩
    rw [Substitution.apply_tuple]
    exact .tuple (congrArg some (Substitution.apply_tuple _)) h
  | .constructor hc _ hps, hΔ, hσ => by
    obtain ⟨d, hd, rfl, rfl, rfl⟩ := (hps.follows.declared hΔ).lookup hc
    obtain ⟨names, rfl, h⟩ := hps.stamped hΔ hσ
    rw [Substitution.map_apply_toTy] at h
    exact ⟨names, rfl, .constructor hd rfl h⟩

theorem InfersPatterns.stamped {ns ns' : List Node} {ts : List Ty}
    {bindings : List (String × Binding)} {s s' : InferState} :
    InfersPatterns ns s ns' ts bindings s' → Declared Δ s' →
      Solves (Ty.valuation σ.find?) s'.constraints.toList → ∃ names, bindings = monoBindings names ∧
        StampedPatterns Δ (applyTypesAll σ ns') (ts.map σ.apply) (applyNames σ names)
  | .nil, _, _ => ⟨[], rfl, .nil⟩
  | .cons hp hps, hΔ, hσ => by
    obtain ⟨first, rfl, hfirst⟩ := hp.stamped (hps.follows.declared hΔ) (hps.follows.solves hσ)
    obtain ⟨more, rfl, hmore⟩ := hps.stamped hΔ hσ
    refine ⟨first ++ more, List.map_append.symm, ?_⟩
    rw [applyNames, List.map_append]
    exact .cons hfirst hmore

theorem InfersArguments.stamped {ns ns' : List Node} {ts : List Ty}
    {bindings : List (String × Binding)} {s s' : InferState} :
    InfersArguments ns ts s ns' bindings s' → Declared Δ s' →
      Solves (Ty.valuation σ.find?) s'.constraints.toList → ∃ names, bindings = monoBindings names ∧
        StampedPatterns Δ (applyTypesAll σ ns') (ts.map σ.apply) (applyNames σ names)
  | .nil, _, _ => ⟨[], rfl, .nil⟩
  | .cons hp ht hps, hΔ, hσ => by
    have hσ₂ := hps.follows.solves hσ
    have hfollows := (follows_constrain ht).trans hps.follows
    obtain ⟨first, rfl, hfirst⟩ := hp.stamped (hfollows.declared hΔ) (hfollows.solves hσ)
    obtain ⟨more, rfl, hmore⟩ := hps.stamped hΔ hσ
    rw [apply_eq_of_constrain ht hσ₂] at hfirst
    refine ⟨first ++ more, List.map_append.symm, ?_⟩
    rw [applyNames, List.map_append]
    exact .cons hfirst hmore

end

/-- Constructors are given the types of their declarations. -/
theorem Types.areStamped_of_declareConstructors {d : String} : ∀ {Γ Γ' : TypeEnvironment}
    {cs cs' : List Node} {s s' : InferState},
    Runs (Types.declareConstructors d Γ cs) s (cs', Γ') s' →
      AreStampedConstructors d (applyTypesAll σ cs')
  | _, _, [], _, _, _, h => by
    obtain ⟨h, -⟩ := runs_pure.1 h
    cases h
    exact .nil
  | _, _, .dataConstructor m c parameters tag :: rest, _, _, _, h => by
    simp only [Types.declareConstructors, runs_bind, runs_modify, runs_pure] at h
    obtain ⟨⟨⟩, _, rfl, ⟨more, inner⟩, s₂, hmore, h, -⟩ := h
    cases h
    exact .cons (congrArg some (Substitution.apply_stamp ⟨c, parameters, d⟩))
      (areStamped_of_declareConstructors hmore)

theorem Node.declared_applyTypesAll (d : String) (cs : List Node) :
    declared d (applyTypesAll σ cs) = declared d cs :=
  declared_congr (mapAllMarks_mapAllMarks _ _ cs)

/-! ## 5. Expressions -/

/-- A function of a group with the bound variables of its types replaced. -/
def Types.applyEntry (σ : Substitution) : String × Ty × Ty → String × Ty × Ty
  | (f, p, r) => (f, σ.apply p, σ.apply r)

mutual

/-- **A run of inference leaves types that fit together**, once a solution of its equations is
    written in. -/
theorem Infers.stamped {g : Generalizer} {Γ : TypeEnvironment} {n n' : Node} {t : Ty}
    {s s' : InferState} : Infers g Γ n s n' t s' → s.Sound → Declared Δ s' →
      Solves (Ty.valuation σ.find?) s'.constraints.toList → ∀ {stamps : Stamps},
        StampsFit σ Γ stamps → Stamped Δ stamps (n'.applyTypes σ) (σ.apply t)
  | .top he, hs, hΔ, hσ, _, hfits => .top rfl (he.stamped hs hΔ hσ hfits)
  | .literal, _, _, _, _, _ => .literal rfl
  | .mono hx, _, _, _, _, hfits => by
    obtain ⟨stamp, hstamp, honly⟩ := StampsFit.lookup hfits hx
    cases stamp with
    | none => exact .reference rfl (.inl hstamp)
    | some u =>
      obtain ⟨t, ht, rfl⟩ := honly u rfl
      cases ht
      exact .reference rfl (.inr hstamp)
  | .poly hx _, _, _, _, _, hfits => by
    obtain ⟨stamp, hstamp, honly⟩ := StampsFit.lookup hfits hx
    cases stamp with
    | none => exact .reference rfl (.inl hstamp)
    | some u =>
      obtain ⟨t, ht, -⟩ := honly u rfl
      cases ht
  | .printer _ _, _, _, _, _, _ => .builtin rfl fun _ => rfl
  | .panic _ _, _, _, _, _, _ => .builtin rfl fun h => absurd rfl h
  | .lambda ht hbody, hs, hΔ, hσ, _, hfits =>
    .lambda rfl (isAscribed_of_ascribedOrFresh ht)
      (hbody.stamped ((follows_ascribedOrFresh ht).sound hs) hΔ hσ (hfits.mono _ _))
  | .application hf ha hr hc, hs, hΔ, hσ, _, hfits => by
    have hstep := (follows_fresh hr).trans (follows_constrain hc)
    have hrest := ha.follows.trans hstep
    have hfun := hf.stamped hs (hrest.declared hΔ) (hrest.solves hσ) hfits
    rw [apply_eq_of_constrain hc hσ] at hfun
    exact .application rfl hfun
      (ha.stamped (hf.follows.sound hs) (hstep.declared hΔ) (hstep.solves hσ) hfits)
  | .letIn hvalue ha _ hbody, hs, hΔ, hσ, _, hfits => by
    have hσ₂ := hbody.follows.solves hσ
    have hrest := (follows_agrees ha).trans hbody.follows
    have hs₂ := (follows_agrees ha).sound (hvalue.follows.sound hs)
    exact .letIn rfl (hvalue.stamped hs (hrest.declared hΔ) (hrest.solves hσ) hfits)
      (isAscribed_of_agrees ha hσ₂) (hbody.stamped hs₂ hΔ hσ (hfits.free _ _))
  | .letRec hdeclared harms _ hbody, hs, hΔ, hσ, _, hfits => by
    have hs₁ := (follows_declareGroup hdeclared).sound hs
    -- in the group its names have one type each, behind it they are free
    refine .letRec rfl
      (harms.stamped hdeclared rfl hs₁ (hbody.follows.declared hΔ) (hbody.follows.solves hσ) ?_)
      (hbody.stamped (harms.follows.sound hs₁) hΔ hσ ?_)
    · rw [Stamps.inGroup, List.map_map]
      exact hfits.extendAll fun _ _ => ⟨rfl, fun _ hu => ⟨_, rfl, (Option.mem_some_iff.1 hu).symm⟩⟩
    · rw [Stamps.behindGroup, List.map_map]
      exact hfits.extendAll fun _ _ => ⟨rfl, fun _ hu => nomatch hu⟩
  | .conditional hc ht ha hb hu, hs, hΔ, hσ, _, hfits => by
    have hrest₄ := follows_constrain hu
    have hrest₃ := hb.follows.trans hrest₄
    have hrest₂ := ha.follows.trans hrest₃
    have hrest₁ := (follows_constrain ht).trans hrest₂
    have hs₂ := (follows_constrain ht).sound (hc.follows.sound hs)
    have hs₃ := ha.follows.sound hs₂
    have hcond := hc.stamped hs (hrest₁.declared hΔ) (hrest₁.solves hσ) hfits
    have helse := hb.stamped hs₃ (hrest₄.declared hΔ) (hrest₄.solves hσ) hfits
    rw [apply_eq_of_constrain ht (hrest₂.solves hσ)] at hcond
    rw [← apply_eq_of_constrain hu hσ] at helse
    exact .conditional rfl hcond
      (ha.stamped hs₂ (hrest₃.declared hΔ) (hrest₃.solves hσ) hfits) helse
  | .ofInts ho hl hr ht hu, hs, hΔ, hσ, _, hfits => by
    have hrest₂ := (follows_constrain ht).trans (follows_constrain hu)
    have hrest₁ := hr.follows.trans hrest₂
    have hlhs := hl.stamped hs (hrest₁.declared hΔ) (hrest₁.solves hσ) hfits
    have hrhs := hr.stamped (hl.follows.sound hs) (hrest₂.declared hΔ) (hrest₂.solves hσ) hfits
    rw [apply_eq_of_constrain ht ((follows_constrain hu).solves hσ)] at hlhs
    rw [apply_eq_of_constrain hu hσ] at hrhs
    rcases ho with ⟨ho, rfl⟩ | ⟨ho, rfl⟩
    · exact .arithmetic rfl ho hlhs hrhs
    · exact .relational rfl ho hlhs hrhs
  | .equality ho hl hr ht, hs, hΔ, hσ, _, hfits => by
    have hrest₂ := follows_constrain ht
    have hrest₁ := hr.follows.trans hrest₂
    have hlhs := hl.stamped hs (hrest₁.declared hΔ) (hrest₁.solves hσ) hfits
    rw [apply_eq_of_constrain ht hσ] at hlhs
    exact .equality rfl ho hlhs
      (hr.stamped (hl.follows.sound hs) (hrest₂.declared hΔ) (hrest₂.solves hσ) hfits)
  | .unary he ht, hs, hΔ, hσ, _, hfits => by
    have hrest := follows_constrain ht
    have hoperand := he.stamped hs (hrest.declared hΔ) (hrest.solves hσ) hfits
    rw [apply_eq_of_constrain ht hσ] at hoperand
    exact .unary rfl hoperand
  | .sequence hes, hs, hΔ, hσ, _, hfits => by
    rw [Substitution.apply_getLastD]
    exact .sequence (congrArg some (Substitution.apply_getLastD _)) (hes.stamped hs hΔ hσ hfits)
  | .tuple hes, hs, hΔ, hσ, _, hfits => by
    rw [Substitution.apply_tuple]
    exact .tuple (congrArg some (Substitution.apply_tuple _)) (hes.stamped hs hΔ hσ hfits)
  | .projection he ht hu, hs, hΔ, hσ, _, hfits => by
    have hrest := follows_resolveNow ht
    have htarget := he.stamped hs (hrest.declared hΔ) (hrest.solves hσ) hfits
    -- what the target was resolved to on the spot, it is under every later solution
    rw [← apply_eq_of_resolveNow ht (he.follows.sound hs) hσ, Substitution.apply_tuple] at htarget
    refine .projection rfl (List.length_map _) (List.getElem?_eq_some_iff.1 hu).1 ?_ htarget
    rw [List.getElem?_map, hu]
    rfl
  | .dataType (d := d) hcs hbody, hs, hΔ, hσ, _, hfits => by
    have hstamped := areStamped_of_declareConstructors (σ := σ) hcs
    obtain ⟨hfollows, hconstructors, hsame⟩ := runs_declareConstructors hcs
    have hnames := (declared_applyTypesAll (σ := σ) d _).trans hsame
    have hdeclared := hfollows.mem_declared (hbody.follows.declared hΔ)
    refine .dataType rfl hstamped (hnames ▸ hdeclared) (hbody.stamped (hfollows.sound hs) hΔ hσ ?_)
    rw [applyTypesAll] at hnames
    rw [hconstructors, hnames, Stamps.of, List.map_map]
    refine hfits.extendAll fun c hc => ⟨rfl, fun u hu => ⟨c.stamp, ?_, ?_⟩⟩
    · rw [Declaration.stamp, dataType_of_mem_declared hc]
    · rw [Substitution.apply_stamp]
      exact (Option.mem_some_iff.1 hu).symm
  | .matchWith he hr harms, hs, hΔ, hσ, _, hfits => by
    have hrest := (follows_fresh hr).trans harms.follows
    have hs₁ := he.follows.sound hs
    exact .matchWith rfl (he.stamped hs (hrest.declared hΔ) (hrest.solves hσ) hfits)
      (harms.stamped ((follows_fresh hr).sound hs₁) hΔ hσ hfits)
termination_by structural h => h

theorem InfersAll.stamped {g : Generalizer} {Γ : TypeEnvironment} {ns ns' : List Node}
    {ts : List Ty} {s s' : InferState} : InfersAll g Γ ns s ns' ts s' → s.Sound → Declared Δ s' →
      Solves (Ty.valuation σ.find?) s'.constraints.toList → ∀ {stamps : Stamps},
        StampsFit σ Γ stamps → AreStamped Δ stamps (applyTypesAll σ ns') (ts.map σ.apply)
  | .nil, _, _, _, _, _ => .nil
  | .cons hn hns, hs, hΔ, hσ, _, hfits =>
    .cons (hn.stamped hs (hns.follows.declared hΔ) (hns.follows.solves hσ) hfits)
      (hns.stamped (hn.follows.sound hs) hΔ hσ hfits)
termination_by structural h => h

theorem InfersGroup.stamped {g : Generalizer} {Γ : TypeEnvironment} {ns ns' : List Node}
    {types : List (Ty × Ty)} {s s' : InferState} : InfersGroup g Γ ns types s ns' s' →
      ∀ {declared : List (String × Ty × Ty)} {s₀ s₁ : InferState},
        Runs (declareGroup ns) s₀ declared s₁ → types = declared.map Prod.snd → s.Sound →
        Declared Δ s' → Solves (Ty.valuation σ.find?) s'.constraints.toList →
          ∀ {stamps : Stamps}, StampsFit σ Γ stamps →
            AreStampedFunctions Δ stamps (applyTypesAll σ ns') (declared.map (applyEntry σ))
  | .nil, _, _, _, hdeclared, _, _, _, _, _, _ => by
    obtain ⟨rfl, -⟩ := runs_pure.1 hdeclared
    exact .nil
  | .cons hbody ht hrest, _, _, _, hdeclared, htypes, hs, hΔ, hσ, _, hfits => by
    simp only [declareGroup, runs_bind, runs_pure] at hdeclared
    obtain ⟨p, _, hp, r, _, hr, more, _, hmore, rfl, -⟩ := hdeclared
    rw [List.map_cons, List.cons.injEq, Prod.mk.injEq] at htypes
    obtain ⟨⟨rfl, rfl⟩, htypes⟩ := htypes
    have hrest₂ := hrest.follows
    have hrest₁ := (follows_constrain ht).trans hrest₂
    have hs₂ := (follows_constrain ht).sound (hbody.follows.sound hs)
    have hbody' := hbody.stamped hs (hrest₁.declared hΔ) (hrest₁.solves hσ) (hfits.mono _ _)
    rw [apply_eq_of_constrain ht (hrest₂.solves hσ)] at hbody'
    exact .cons rfl (isAscribed_of_ascribedOrFresh hp) (isAscribed_of_ascribedOrFresh hr) hbody'
      (hrest.stamped hmore htypes hs₂ hΔ hσ hfits)
termination_by structural h => h

theorem InfersArms.stamped {g : Generalizer} {Γ : TypeEnvironment} {ns ns' : List Node} {t r : Ty}
    {s s' : InferState} : InfersArms g Γ t r ns s ns' s' → s.Sound → Declared Δ s' →
      Solves (Ty.valuation σ.find?) s'.constraints.toList → ∀ {stamps : Stamps},
        StampsFit σ Γ stamps →
          AreStampedArms Δ stamps (σ.apply t) (applyTypesAll σ ns') (σ.apply r)
  | .nil, _, _, _, _, _ => .nil
  | .cons hp ht hbody hr hrest, hs, hΔ, hσ, _, hfits => by
    have hrest₄ := hrest.follows
    have hrest₃ := (follows_constrain hr).trans hrest₄
    have hrest₂ := hbody.follows.trans hrest₃
    have hrest₁ := (follows_constrain ht).trans hrest₂
    have hs₂ := (follows_constrain ht).sound (hp.follows.sound hs)
    have hs₄ := (follows_constrain hr).sound (hbody.follows.sound hs₂)
    obtain ⟨names, hnames, hpattern⟩ := hp.stamped (hrest₁.declared hΔ) (hrest₁.solves hσ)
    rw [← apply_eq_of_constrain ht (hrest₂.solves hσ)] at hpattern
    have hbody' :=
      hbody.stamped hs₂ (hrest₃.declared hΔ) (hrest₃.solves hσ) (hnames ▸ hfits.names names)
    rw [apply_eq_of_constrain hr (hrest₄.solves hσ)] at hbody'
    exact .cons rfl hpattern hbody' (hrest.stamped hs₄ hΔ hσ hfits)
termination_by structural h => h

end

/-! ## 6. Whole programs -/

/-- The mark of the node holds a type. -/
def Node.HasStamp (n : Node) : Prop := ∃ t, n.mark.ty = some t

mutual

theorem StampedPattern.hasStamp : ∀ {p : Node} {t : Ty} {names : List (String × Ty)},
    StampedPattern Δ p t names → p.Everywhere HasStamp
  | _, _, _, .binder hm => .mk ⟨_, hm⟩ (List.forall_mem_nil _)
  | _, _, _, .literal hm => .mk ⟨_, hm⟩ (List.forall_mem_nil _)
  | _, _, _, .tuple hm hps => .mk ⟨_, hm⟩ hps.hasStamp
  | _, _, _, .constructor _ hm hps => .mk ⟨_, hm⟩ hps.hasStamp

theorem StampedPatterns.hasStamp : ∀ {ps : List Node} {ts : List Ty} {names : List (String × Ty)},
    StampedPatterns Δ ps ts names → ∀ p ∈ ps, p.Everywhere HasStamp
  | _, _, _, .nil => List.forall_mem_nil _
  | _, _, _, .cons hp hps => List.forall_mem_cons.2 ⟨hp.hasStamp, hps.hasStamp⟩

end

theorem AreStampedConstructors.hasStamp {d : String} {cs : List Node}
    (h : AreStampedConstructors d cs) : ∀ c ∈ cs, c.Everywhere HasStamp := by
  induction h with
  | nil => exact List.forall_mem_nil _
  | cons hm _ ih => exact List.forall_mem_cons.2 ⟨.mk ⟨_, hm⟩ (List.forall_mem_nil _), ih⟩

mutual

/-- Every node of a tree whose types fit together has a type. -/
theorem Stamped.hasStamp : ∀ {Γ : Stamps} {n : Node} {t : Ty},
    Stamped Δ Γ n t → n.Everywhere HasStamp
  | _, _, _, .literal hm | _, _, _, .reference hm _ | _, _, _, .builtin hm _ =>
    .mk ⟨_, hm⟩ (List.forall_mem_nil _)
  | _, _, _, .top hm he | _, _, _, .lambda hm _ he | _, _, _, .unary hm he
  | _, _, _, .projection hm _ _ _ he => .mk ⟨_, hm⟩ (List.forall_mem_singleton.2 he.hasStamp)
  | _, _, _, .application hm hl hr | _, _, _, .arithmetic hm _ hl hr
  | _, _, _, .relational hm _ hl hr | _, _, _, .equality hm _ hl hr
  | _, _, _, .letIn hm hl _ hr =>
    .mk ⟨_, hm⟩ (List.forall_mem_cons.2 ⟨hl.hasStamp, List.forall_mem_singleton.2 hr.hasStamp⟩)
  | _, _, _, .conditional hm hc ht he =>
    .mk ⟨_, hm⟩ (List.forall_mem_cons.2 ⟨hc.hasStamp,
      List.forall_mem_cons.2 ⟨ht.hasStamp, List.forall_mem_singleton.2 he.hasStamp⟩⟩)
  | _, _, _, .sequence hm hes | _, _, _, .tuple hm hes => .mk ⟨_, hm⟩ hes.hasStamp
  | _, _, _, .letRec hm harms hbody =>
    .mk ⟨_, hm⟩ (List.forall_mem_append.2
      ⟨harms.hasStamp, List.forall_mem_singleton.2 hbody.hasStamp⟩)
  | _, _, _, .dataType hm hcs _ hbody =>
    .mk ⟨_, hm⟩ (List.forall_mem_append.2
      ⟨hcs.hasStamp, List.forall_mem_singleton.2 hbody.hasStamp⟩)
  | _, _, _, .matchWith hm he harms =>
    .mk ⟨_, hm⟩ (List.forall_mem_cons.2 ⟨he.hasStamp, harms.hasStamp⟩)

theorem AreStamped.hasStamp : ∀ {Γ : Stamps} {ns : List Node} {ts : List Ty},
    AreStamped Δ Γ ns ts → ∀ n ∈ ns, n.Everywhere HasStamp
  | _, _, _, .nil => List.forall_mem_nil _
  | _, _, _, .cons hn hns => List.forall_mem_cons.2 ⟨hn.hasStamp, hns.hasStamp⟩

theorem AreStampedFunctions.hasStamp : ∀ {Γ : Stamps} {arms : List Node}
    {entries : List (String × Ty × Ty)},
    AreStampedFunctions Δ Γ arms entries → ∀ arm ∈ arms, arm.Everywhere HasStamp
  | _, _, _, .nil => List.forall_mem_nil _
  | _, _, _, .cons hm _ _ hbody hrest =>
    List.forall_mem_cons.2
      ⟨.mk ⟨_, hm⟩ (List.forall_mem_singleton.2 hbody.hasStamp), hrest.hasStamp⟩

theorem AreStampedArms.hasStamp : ∀ {Γ : Stamps} {t r : Ty} {arms : List Node},
    AreStampedArms Δ Γ t arms r → ∀ arm ∈ arms, arm.Everywhere HasStamp
  | _, _, _, _, .nil => List.forall_mem_nil _
  | _, _, _, _, .cons hm hp hbody hrest =>
    List.forall_mem_cons.2 ⟨.mk ⟨_, hm⟩ (List.forall_mem_cons.2
      ⟨hp.hasStamp, List.forall_mem_singleton.2 hbody.hasStamp⟩), hrest.hasStamp⟩

end

theorem Node.mapAllMarks_eq_map (f : Mark → Mark) (ns : List Node) :
    mapAllMarks f ns = ns.map (mapMarks f) := by
  induction ns with
  | nil => rfl
  | cons n ns ih => rw [mapAllMarks, ih, List.map_cons]

theorem Node.children_mapMarks (f : Mark → Mark) (n : Node) :
    (n.mapMarks f).children = n.children.map (mapMarks f) := by
  cases n <;> simp [mapMarks, children, mapAllMarks_eq_map]

/-- Where a solution was written in, every mark is one with the solution applied. -/
theorem Node.everywhere_applyTypes (σ : Substitution) (n : Node) :
    (n.applyTypes σ).Everywhere fun m => ∀ t ∈ m.mark.ty, ∃ u, t = σ.apply u := by
  induction n using Node.induction with | h n ih => ?_
  refine .mk ?_ ?_
  · intro t ht
    rw [applyTypes, mark_mapMarks] at ht
    obtain ⟨u, -, hu⟩ := Option.map_eq_some_iff.1 ht
    exact ⟨u, hu.symm⟩
  · rw [applyTypes, children_mapMarks]
    exact List.forall_mem_map.2 ih

/-- **The types in an accepted tree fit together.** Every node of the tree has a type, no variable
    that the solution binds is left in these types, and at every node they keep the rule for its
    construct. -/
theorem Source.IsTyped.stamps_consistent {s : Source} {parsed named tree : Node} {typing : Typing}
    (h : s.IsTyped parsed named typing tree) :
    ∃ σ, solve typing.constraints = .ok σ ∧ tree = typing.tree.applyTypes σ ∧
      (tree.Everywhere fun n =>
        ∃ t, n.mark.ty = some t ∧ ∀ v ∈ t.occurrences, σ.find? v = none) ∧
      ∃ t, Stamped named.declarations [] tree t := by
  obtain ⟨s', hinfers, hcs⟩ := named.infers_of_inferTypesBy h.inferTypes
  obtain ⟨σ, hsolve, htree⟩ := Typing.unify_ok_iff.1 h.unify
  have hσ : Solves (Ty.valuation σ.find?) s'.constraints.toList :=
    hcs ▸ unifies_iff_solves.1 (isMostGeneral_of_solve hsolve).unifies
  have hstamped := hinfers.stamped InferState.sound_empty hinfers.declared hσ .nil
  rw [← htree] at hstamped
  refine ⟨σ, hsolve, htree, ?_, _, hstamped⟩
  refine (hstamped.hasStamp.and (htree ▸ Node.everywhere_applyTypes σ typing.tree)).imp ?_
  rintro n ⟨⟨t, ht⟩, happlied⟩
  obtain ⟨u, rfl⟩ := happlied t ht
  exact ⟨_, ht, fun v hv => Substitution.find?_of_mem_apply (solve_ok hsolve).1 u hv⟩

/-- A data type is declared and taken apart, and the type of the target of a projection is only
    known when the equations before it are solved. -/
def measured : Source := .ofText
  "data O = N | S (int) in let f = \\x -> match x \x7b N -> 0; S (y) -> y \x7d in (f (S 7), true).1"

set_option maxRecDepth 100000 in
theorem measured_stamps_consistent : ∃ parsed named typing tree,
    measured.IsTyped parsed named typing tree ∧ tree.mark.ty = some .bool ∧
      ∃ t, Stamped named.declarations [] tree t := by
  have h : (do
      let named ← (← measured.parse).resolveNames
      let tree ← (← named.inferTypes).unify
      return tree.mark.ty) = .ok (some .bool) := by cbv
  obtain ⟨parsed, hparsed, h⟩ := bind_ok_iff.1 h
  obtain ⟨named, hnamed, h⟩ := bind_ok_iff.1 h
  obtain ⟨typing, htyping, h⟩ := bind_ok_iff.1 h
  obtain ⟨tree, htree, h⟩ := bind_ok_iff.1 h
  have htyped : measured.IsTyped parsed named typing tree := ⟨hparsed, hnamed, htyping, htree⟩
  obtain ⟨-, -, -, -, hstamped⟩ := htyped.stamps_consistent
  exact ⟨parsed, named, typing, tree, htyped, Except.ok.inj h, hstamped⟩

end ClosureML
