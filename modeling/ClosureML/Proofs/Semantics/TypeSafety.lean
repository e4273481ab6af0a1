import ClosureML.Proofs.Semantics.Evaluation
import ClosureML.Proofs.Types.HindleyMilner
import Mathlib.Data.List.Nodup

/-!
# Typed programs do not go wrong

Values have types as well, and a tree with a typing derivation evaluates, if its evaluation ends, to
a value of its type. A derivation holds at all replacements of its type variables, so the typing of
values carries the replacement `ρ` with it instead of changing derivations.

* `ValueHasType`: the values of a type;
* `EnvironmentHasTypes`: the values of the names in a context, where the value of a quantified name
  has all the instances of its type.

Main statements: `HasType.ensures` (the evaluation of a typed tree) and `call_ensures` (the call of
a typed function).
-/

namespace ClosureML

open SimpleType ClosureML.Computation

/-! ## 1. Types of values -/

/-- Replacements that agree outside some variables. -/
def AgreeOutside (quantified : List Nat) (ρ ρ' : Nat → SimpleType) : Prop :=
  ∀ n, n ∉ quantified → ρ' n = ρ n

instance (quantified : List Nat) (ρ : Nat → SimpleType) :
    Nonempty { ρ' // AgreeOutside quantified ρ ρ' } := ⟨ρ, fun _ _ => rfl⟩

mutual

/-- The value has the type. -/
inductive ValueHasType (Δ : List Declaration) : Value → SimpleType → Prop where
  | word {n : Int} {b : BaseType} : ValueHasType Δ (.word n) (.base b)
  | builtin {b : Builtin} {p r : SimpleType} (h : b = .panic ∨ r = .unit) :
      ValueHasType Δ (.builtin b) (.function p r)
  | closure {env : Environment} {x : String} {body : Node} {Γ : Context} {ρ : Nat → SimpleType}
      {p r : SimpleType} (henv : EnvironmentHasTypes Δ env Γ ρ)
      (hbody : HasType Δ ((x, .mono p) :: Γ) body r) :
      ValueHasType Δ (.closure env x body) (.function (p.subst ρ) (r.subst ρ))
  | member {env : Environment} {functions : List Node} {i : Nat} {Γ : Context}
      {ρ : Nat → SimpleType} {group : List GroupEntry} {e : GroupEntry}
      (henv : EnvironmentHasTypes Δ env Γ ρ)
      (hgroup : GroupHasTypes Δ (Context.ofGroup group ++ Γ) functions group)
      (he : group[i]? = some e) :
      ValueHasType Δ (.member env functions i)
        (.function (e.parameter.subst ρ) (e.result.subst ρ))
  | tuple {vs : List Value} {ts : List SimpleType} (hvs : ValuesHaveTypes Δ vs ts) :
      ValueHasType Δ (.tuple vs) (.tuple ts)
  | data {d : Declaration} {vs : List Value} (hd : d ∈ Δ)
      (hvs : ValuesHaveTypes Δ vs (d.parameters.map TypeExpr.simple)) :
      ValueHasType Δ (.data d.name vs) (.data d.dataType)
  | constructor {d : Declaration} {given : List TypeExpr} {next : TypeExpr}
      {waiting : List TypeExpr} {vs : List Value} (hd : d ∈ Δ)
      (hparameters : d.parameters = given ++ next :: waiting)
      (hvs : ValuesHaveTypes Δ vs (given.map TypeExpr.simple)) :
      ValueHasType Δ (.constructor d.name (waiting.length + 1) vs)
        (.function next.simple
          ((waiting.map TypeExpr.simple).foldr .function (.data d.dataType)))

/-- The values have the types, one by one. -/
inductive ValuesHaveTypes (Δ : List Declaration) : List Value → List SimpleType → Prop where
  | nil : ValuesHaveTypes Δ [] []
  | cons {v : Value} {vs : List Value} {t : SimpleType} {ts : List SimpleType}
      (hv : ValueHasType Δ v t) (hvs : ValuesHaveTypes Δ vs ts) :
      ValuesHaveTypes Δ (v :: vs) (t :: ts)

/-- The values of the names in scope have the types that the context gives, when its type variables
    are replaced. -/
inductive EnvironmentHasTypes (Δ : List Declaration) :
    Environment → Context → (Nat → SimpleType) → Prop where
  | nil {ρ : Nat → SimpleType} : EnvironmentHasTypes Δ [] [] ρ
  | cons {x : String} {v : Value} {σ : Scheme} {env : Environment} {Γ : Context}
      {ρ : Nat → SimpleType}
      (hv : ∀ ρ', AgreeOutside σ.quantified ρ ρ' → ValueHasType Δ v (σ.type.subst ρ'))
      (henv : EnvironmentHasTypes Δ env Γ ρ) :
      EnvironmentHasTypes Δ ((x, v) :: env) ((x, σ) :: Γ) ρ

end

variable {Δ : List Declaration} {Γ : Context} {env : Environment} {ρ ρ' : Nat → SimpleType}

namespace ValueHasType

variable {v : Value} {t : SimpleType}

theorem base_inv {b : BaseType} (h : ValueHasType Δ v (.base b)) : ∃ n, v = .word n := by
  cases h
  exact ⟨_, rfl⟩

theorem tuple_inv {ts : List SimpleType} (h : ValueHasType Δ v (.tuple ts)) :
    ∃ vs, v = .tuple vs ∧ ValuesHaveTypes Δ vs ts := by
  cases h with
  | tuple hvs => exact ⟨_, rfl, hvs⟩

theorem data_inv {d : String} (h : ValueHasType Δ v (.data d)) :
    ∃ c ∈ Δ, ∃ vs, v = .data c.name vs ∧ d = c.dataType ∧
      ValuesHaveTypes Δ vs (c.parameters.map TypeExpr.simple) := by
  cases h with
  | data hd hvs => exact ⟨_, hd, _, rfl, rfl, hvs⟩

end ValueHasType

namespace ValuesHaveTypes

variable {vs : List Value} {ts : List SimpleType}

theorem length_eq (h : ValuesHaveTypes Δ vs ts) : vs.length = ts.length := by
  induction vs generalizing ts with
  | nil =>
    cases h
    rfl
  | cons v vs ih =>
    cases h with
    | cons _ hvs => rw [List.length_cons, List.length_cons, ih hvs]

theorem get {i : Nat} {t : SimpleType} (h : ValuesHaveTypes Δ vs ts) (ht : ts[i]? = some t) :
    ∃ v, vs[i]? = some v ∧ ValueHasType Δ v t := by
  induction i generalizing vs ts with
  | zero =>
    cases h with
    | nil => cases ht
    | cons hv _ =>
      cases ht
      exact ⟨_, rfl, hv⟩
  | succ i ih =>
    cases h with
    | nil => cases ht
    | cons _ hvs => exact ih hvs ht

theorem append {ws : List Value} {us : List SimpleType} (h : ValuesHaveTypes Δ vs ts)
    (h' : ValuesHaveTypes Δ ws us) : ValuesHaveTypes Δ (vs ++ ws) (ts ++ us) := by
  induction vs generalizing ts with
  | nil =>
    cases h
    exact h'
  | cons v vs ih =>
    cases h with
    | cons hv hvs => exact .cons hv (ih hvs)

/-- The last of several values has the last of their types. -/
theorem getLastD {v : Value} {t : SimpleType} (h : ValuesHaveTypes Δ vs ts)
    (hv : ValueHasType Δ v t) : ValueHasType Δ (vs.getLastD v) (ts.getLastD t) := by
  induction vs generalizing ts v t with
  | nil =>
    cases h
    exact hv
  | cons w vs ih =>
    cases h with
    | cons hw hvs =>
      rw [List.getLastD_cons, List.getLastD_cons]
      exact ih hvs hw

end ValuesHaveTypes

namespace EnvironmentHasTypes

/-- A name with one type is bound. -/
theorem bind {x : String} {v : Value} {t : SimpleType} (h : EnvironmentHasTypes Δ env Γ ρ)
    (hv : ValueHasType Δ v (t.subst ρ)) :
    EnvironmentHasTypes Δ ((x, v) :: env) ((x, .mono t) :: Γ) ρ := by
  refine .cons (fun ρ' hρ' => ?_) h
  have : ρ' = ρ := funext fun n => hρ' n List.not_mem_nil
  rw [this]
  exact hv

/-- **Only the variables that the context holds matter.** -/
theorem congr (h : EnvironmentHasTypes Δ env Γ ρ) (hρ : ∀ n, Γ.Holds n → ρ' n = ρ n) :
    EnvironmentHasTypes Δ env Γ ρ' := by
  induction env generalizing Γ with
  | nil =>
    cases h
    exact .nil
  | cons entry env ih =>
    cases h with
    | @cons x v σ _ Γ _ hv henv =>
      have hrest := ih henv fun n ⟨e, he, hn⟩ => hρ n ⟨e, List.mem_cons_of_mem _ he, hn⟩
      refine .cons (fun ρ'' hρ'' => ?_) hrest
      -- the instance is one under `ρ`, too, when the quantified variables are replaced alike
      let τ : Nat → SimpleType := fun n => if n ∈ σ.quantified then ρ'' n else ρ n
      have hτ : AgreeOutside σ.quantified ρ τ := fun n hn => if_neg hn
      have htype : σ.type.subst ρ'' = σ.type.subst τ := by
        refine subst_congr _ fun n hn => ?_
        by_cases hq : n ∈ σ.quantified
        · exact (if_pos hq).symm
        · rw [hρ'' n hq, hρ n ⟨_, List.mem_cons_self, hn, hq⟩]
          exact (if_neg hq).symm
      rw [htype]
      exact hv τ hτ

/-- A name in scope has a value, which has all the instances of its type. -/
theorem lookup {x : String} {σ : Scheme} (h : EnvironmentHasTypes Δ env Γ ρ)
    (hx : Γ.lookup x = some σ) :
    ∃ v, env.lookup x = some v ∧
      ∀ ρ', AgreeOutside σ.quantified ρ ρ' → ValueHasType Δ v (σ.type.subst ρ') := by
  induction env generalizing Γ with
  | nil =>
    cases h
    cases hx
  | cons entry env ih =>
    cases h with
    | @cons y v τ _ Γ _ hv henv =>
      rw [List.lookup_cons] at hx ⊢
      by_cases hxy : x == y
      · rw [hxy] at hx ⊢
        cases hx
        exact ⟨v, rfl, hv⟩
      · rw [Bool.not_eq_true] at hxy
        rw [hxy] at hx ⊢
        exact ih henv hx

end EnvironmentHasTypes

/-- The types of parameters hold no variables. -/
theorem TypeExpr.subst_simple (e : TypeExpr) (ρ : Nat → SimpleType) :
    e.simple.subst ρ = e.simple := by
  rw [simple, Ty.lift, Ty.subst_interpret]
  exact (e.interpret_toTy _).trans (e.interpret_toTy _).symm

theorem TypeExpr.subst_simples (es : List TypeExpr) (ρ : Nat → SimpleType) :
    substAll ρ (es.map simple) = es.map simple := by
  rw [substAll_eq_map, List.map_map]
  exact List.map_congr_left fun e _ => e.subst_simple ρ

theorem subst_foldr_function (ts : List TypeExpr) (d : String) (ρ : Nat → SimpleType) :
    ((ts.map TypeExpr.simple).foldr SimpleType.function (.data d)).subst ρ =
      (ts.map TypeExpr.simple).foldr SimpleType.function (.data d) := by
  induction ts with
  | nil => rfl
  | cons t ts ih => rw [List.map_cons, List.foldr_cons, subst, t.subst_simple, ih]

theorem subst_getLastD (ρ : Nat → SimpleType) (ts : List SimpleType) (t : SimpleType) :
    (ts.getLastD t).subst ρ = (substAll ρ ts).getLastD (t.subst ρ) := by
  induction ts generalizing t with
  | nil => rfl
  | cons u ts ih => rw [substAll, List.getLastD_cons, List.getLastD_cons, ih]

/-! ## 2. Groups, constructors and patterns -/

/-- The functions of a group are where its context says. -/
theorem GroupHasTypes.get {functions : List Node} {group : List GroupEntry} {i : Nat}
    {e : GroupEntry} (h : GroupHasTypes Δ Γ functions group) (he : group[i]? = some e) :
    ∃ m x pa ra body, functions[i]? = some (.letRecArm m e.name x pa ra body) ∧
      HasType Δ ((x, .mono e.parameter) :: Γ) body e.result := by
  induction i generalizing functions group with
  | zero =>
    cases h with
    | nil => cases he
    | cons _ _ hbody _ =>
      cases he
      exact ⟨_, _, _, _, _, rfl, hbody⟩
  | succ i ih =>
    cases h with
    | nil => cases he
    | cons _ _ _ hrest => exact ih hrest he

/-- The environment inside a group, when each function has the instances of its scheme. -/
theorem bindMembers_hasTypes {outer : Environment} {functions rest : List Node} {Γ' : Context}
    {group : List GroupEntry} {i : Nat} (scheme : GroupEntry → Scheme)
    (hrest : GroupHasTypes Δ Γ' rest group)
    (hmember : ∀ j e, group[j]? = some e → ∀ ρ', AgreeOutside (scheme e).quantified ρ ρ' →
      ValueHasType Δ (.member outer functions (i + j)) ((scheme e).type.subst ρ'))
    (henv : EnvironmentHasTypes Δ env Γ ρ) :
    EnvironmentHasTypes Δ (bindMembers outer functions i rest env)
      ((group.map fun e => (e.name, scheme e)).reverse ++ Γ) ρ := by
  induction group generalizing i rest env Γ with
  | nil =>
    cases hrest
    exact henv
  | cons e group ih =>
    cases hrest with
    | cons _ _ _ hrest =>
      rw [List.map_cons, List.reverse_cons, List.append_assoc]
      refine ih (i := i + 1) hrest (fun j e' he' ρ' hρ' => ?_) (.cons (hmember 0 e rfl) henv)
      rw [Nat.add_right_comm]
      exact hmember (j + 1) e' he' ρ' hρ'

/-- The environment inside a group, as its own bodies see it. -/
theorem bindGroup_ofGroup {functions : List Node} {group : List GroupEntry}
    (henv : EnvironmentHasTypes Δ env Γ ρ)
    (hgroup : GroupHasTypes Δ (Context.ofGroup group ++ Γ) functions group) :
    EnvironmentHasTypes Δ (bindGroup env functions) (Context.ofGroup group ++ Γ) ρ := by
  refine bindMembers_hasTypes (fun e => .mono e.type) hgroup (fun j e he ρ' hρ' => ?_) henv
  have : ρ' = ρ := funext fun n => hρ' n List.not_mem_nil
  rw [this, Nat.zero_add]
  exact .member henv hgroup he

/-- The environment inside a group, as the body behind it sees it. -/
theorem bindGroup_behindGroup {functions : List Node} {group : List GroupEntry}
    (henv : EnvironmentHasTypes Δ env Γ ρ)
    (hgroup : GroupHasTypes Δ (Context.ofGroup group ++ Γ) functions group)
    (hfree : ∀ e ∈ group, ∀ n ∈ e.quantified, ¬ Γ.Holds n) :
    EnvironmentHasTypes Δ (bindGroup env functions) (Context.behindGroup group ++ Γ) ρ := by
  refine bindMembers_hasTypes (fun e => ⟨e.quantified, e.type⟩) hgroup
    (fun j e he ρ' hρ' => ?_) henv
  have henv' : EnvironmentHasTypes Δ env Γ ρ' := henv.congr fun n hn =>
    hρ' n fun hq => hfree e (List.mem_of_getElem? he) n hq hn
  rw [Nat.zero_add]
  exact .member henv' hgroup he

/-- A constructor without arguments has its type. -/
theorem construct_hasType {d : Declaration} (hd : d ∈ Δ) :
    ValueHasType Δ (.construct d.name d.parameters.length []) d.type := by
  rw [Declaration.type]
  cases hparameters : d.parameters with
  | nil =>
    refine .data hd ?_
    rw [hparameters]
    exact .nil
  | cons next waiting =>
    have hsplit : d.parameters = [] ++ next :: waiting := hparameters
    exact .constructor hd hsplit .nil

/-- The environment inside the declaration of a data type. -/
theorem bindConstructors_hasTypes {d : String} {cs : List Node}
    (hcs : ∀ c ∈ Node.declared d cs, c ∈ Δ) (henv : EnvironmentHasTypes Δ env Γ ρ) :
    EnvironmentHasTypes Δ (bindConstructors cs env)
      (Context.ofTypes ((Node.declared d cs).map Declaration.binding) ++ Γ) ρ := by
  induction cs generalizing env Γ with
  | nil => exact henv
  | cons c cs ih =>
    cases c with
    | dataConstructor m c parameters tag =>
      have hd : (⟨c, parameters, d⟩ : Declaration) ∈ Δ := hcs _ List.mem_cons_self
      have htype := construct_hasType hd
      have hbind : EnvironmentHasTypes Δ ((c, .construct c parameters.length []) :: env)
          ((c, .mono (Declaration.type ⟨c, parameters, d⟩)) :: Γ) ρ := by
        refine henv.bind ?_
        rw [Declaration.type, subst_foldr_function]
        exact htype
      have hrest := ih (fun c' hc' => hcs c' (List.mem_cons_of_mem _ hc')) hbind
      rw [bindConstructors]
      refine Eq.mp ?_ hrest
      congr 1
      simp [Context.ofTypes, Node.declared, Node.declaration?, Declaration.binding]
    | _ => exact ih hcs henv

/-- What a pattern makes of a value when it binds names. -/
def Matching.HasTypes (Δ : List Declaration) (Γ : Context) (ρ : Nat → SimpleType) : Matching → Prop
  | binds env => EnvironmentHasTypes Δ env Γ ρ
  | fails => True
  | misfit => False

theorem ofTypes_append (bindings more : List (String × SimpleType)) :
    Context.ofTypes (bindings ++ more) = Context.ofTypes more ++ Context.ofTypes bindings := by
  rw [Context.ofTypes, List.map_append, List.reverse_append]
  rfl

mutual

/-- **Patterns fit the values of their type**, and bind names to values of their types. -/
theorem PatternHasType.matches (hΔ : (Δ.map Declaration.name).Nodup) {p : Node} {t : SimpleType}
    {bindings : List (String × SimpleType)} :
    PatternHasType Δ p t bindings → ∀ {v : Value} {env : Environment} {Γ : Context},
      ValueHasType Δ v (t.subst ρ) → EnvironmentHasTypes Δ env Γ ρ →
        (matchPattern env p v).HasTypes Δ (Context.ofTypes bindings ++ Γ) ρ
  | .binder, v, env, Γ, hv, henv => henv.bind hv
  | .literal, v, env, Γ, hv, henv => by
    obtain ⟨n, rfl⟩ := hv.base_inv
    unfold matchPattern
    split
    · exact henv
    · trivial
  | .tuple hps, v, env, Γ, hv, henv => by
    obtain ⟨vs, rfl, hvs⟩ := hv.tuple_inv
    unfold matchPattern
    have hlength := hvs.length_eq
    rw [substAll_eq_map, List.length_map, ← hps.length_eq] at hlength
    rw [if_pos hlength.symm]
    exact hps.matches hΔ hvs henv
  | .constructor (d := d) hd hps, v, env, Γ, hv, henv => by
    obtain ⟨c, hc, vs, rfl, -, hvs⟩ := hv.data_inv
    unfold matchPattern
    by_cases hname : c.name = d.name
    · obtain rfl : c = d := List.inj_on_of_nodup_map hΔ hc hd hname
      rw [if_pos rfl, if_pos (hps.length_eq.trans hvs.length_eq.symm)]
      refine hps.matches hΔ ?_ henv
      rw [TypeExpr.subst_simples]
      exact hvs
    · rw [if_neg hname]
      trivial

theorem PatternsHaveTypes.matches (hΔ : (Δ.map Declaration.name).Nodup) {ps : List Node}
    {ts : List SimpleType} {bindings : List (String × SimpleType)} :
    PatternsHaveTypes Δ ps ts bindings → ∀ {vs : List Value} {env : Environment} {Γ : Context},
      ValuesHaveTypes Δ vs (substAll ρ ts) → EnvironmentHasTypes Δ env Γ ρ →
        (matchPatterns env ps vs).HasTypes Δ (Context.ofTypes bindings ++ Γ) ρ
  | .nil, vs, env, Γ, hvs, henv => by
    cases hvs
    exact henv
  | .cons hp hps, vs, env, Γ, hvs, henv => by
    cases hvs with
    | cons hv hvs =>
      have hfirst := hp.matches hΔ hv henv
      unfold matchPatterns
      cases hmatch : matchPattern env _ _ with
      | binds env' =>
        rw [hmatch] at hfirst
        rw [ofTypes_append, List.append_assoc]
        exact hps.matches hΔ hvs hfirst
      | fails => trivial
      | misfit =>
        rw [hmatch] at hfirst
        exact hfirst

end

/-! ## 3. Evaluation -/

/-- Up to a bound, calls of functions do not go wrong, and give values of the type of the result. -/
def CallsEnsure (Δ : List Declaration) (k : Nat) : Prop :=
  ∀ f v p r, ValueHasType Δ f (.function p r) → ValueHasType Δ v p →
    (call f v).Ensures k fun w => ValueHasType Δ w r

theorem operate_ne_wrong {o : BinaryOperator} {v w : Value} {e : Stop}
    (h : o.operate v.word? w.word? = .error e)
    (hwords : o.operatorClass ≠ .equality → ∃ a b, v = .word a ∧ w = .word b) : e ≠ .wrong := by
  unfold BinaryOperator.operate at h
  split at h
  · split at h
    · cases h
    · cases h
      exact Stop.noConfusion
  · next hnone =>
    by_cases ho : o.operatorClass = .equality
    · rw [if_pos ho] at h
      cases h
      exact Stop.noConfusion
    · obtain ⟨a, b, rfl, rfl⟩ := hwords ho
      exact absurd rfl (hnone a b rfl)

section Typed

variable {k : Nat}

/-- An operator gives a word, unless it stops. -/
theorem ensures_operate {o : BinaryOperator} {v w : Value} {b : BaseType}
    (hwords : o.operatorClass ≠ .equality → ∃ a b, v = .word a ∧ w = .word b) :
    Ensures k (fun u => ValueHasType Δ u (.base b))
      (do
        let n ← orStop (o.operate v.word? w.word?)
        pure (.word n)) := by
  cases hop : o.operate v.word? w.word? with
  | ok n => exact .pure .word
  | error e => exact .stop (operate_ne_wrong hop hwords)

mutual

/-- **The evaluation of a typed tree** does not go wrong, and gives a value of its type. -/
theorem HasType.ensures (hΔ : (Δ.map Declaration.name).Nodup) (hcalls : CallsEnsure Δ k)
    {Γ : Context} {n : Node} {t : SimpleType} :
    HasType Δ Γ n t → ∀ {env : Environment} {ρ : Nat → SimpleType},
      EnvironmentHasTypes Δ env Γ ρ →
        (n.evaluate env).Ensures k fun v => ValueHasType Δ v (t.subst ρ)
  | .top he, env, ρ, henv => he.ensures hΔ hcalls henv
  | .literal, env, ρ, henv => .pure .word
  | .reference hx ht, env, ρ, henv => by
    obtain ⟨v, hlookup, hv⟩ := henv.lookup hx
    obtain ⟨τ, hτ, rfl⟩ := ht
    rw [evaluate_reference, hlookup]
    refine .pure ?_
    rw [SimpleType.subst_subst]
    refine hv _ fun n hn => ?_
    rw [hτ n hn]
    rfl
  | .printer hb, env, ρ, henv => .pure (.builtin (.inr rfl))
  | .panic, env, ρ, henv => .pure (.builtin (.inl rfl))
  | .lambda _ hbody, env, ρ, henv => .pure (.closure henv hbody)
  | .application hf ha, env, ρ, henv => by
    rw [evaluate_application]
    refine (hf.ensures hΔ hcalls henv).bind fun f hf => ?_
    refine (ha.ensures hΔ hcalls henv).bind fun v hv => ?_
    exact hcalls f v _ _ hf hv
  | .letIn _ hvalue hfree hbody, env, ρ, henv => by
    rw [evaluate_letIn]
    -- the value has its type under all replacements of the quantified variables
    have hall := Ensures.all fun ρ' : { ρ' // AgreeOutside _ ρ ρ' } =>
      hvalue.ensures hΔ hcalls (henv.congr fun n hn => ρ'.2 n fun hq => hfree n hq hn)
    refine hall.bind fun v hv => hbody.ensures hΔ hcalls (.cons (fun ρ' hρ' => ?_) henv)
    exact hv ⟨ρ', hρ'⟩
  | .letRec harms hfree hbody, env, ρ, henv => by
    rw [evaluate_letRec]
    exact hbody.ensures hΔ hcalls (bindGroup_behindGroup henv harms hfree)
  | .conditional hc ht he, env, ρ, henv => by
    rw [evaluate_conditional]
    refine (hc.ensures hΔ hcalls henv).bind fun v hv => ?_
    -- a value of a base type is a word, so that there is a branch to take
    obtain ⟨n, rfl⟩ := hv.base_inv
    show Ensures k _ (if n = 0 then _ else _)
    split
    · exact he.ensures hΔ hcalls henv
    · exact ht.ensures hΔ hcalls henv
  | .arithmetic _ hl hr, env, ρ, henv | .relational _ hl hr, env, ρ, henv => by
    rw [evaluate_binary]
    refine (hl.ensures hΔ hcalls henv).bind fun v hv => ?_
    refine (hr.ensures hΔ hcalls henv).bind fun w hw => ?_
    obtain ⟨a, rfl⟩ := hv.base_inv
    obtain ⟨b, rfl⟩ := hw.base_inv
    exact ensures_operate fun _ => ⟨a, b, rfl, rfl⟩
  | .equality ho hl hr, env, ρ, henv => by
    rw [evaluate_binary]
    refine (hl.ensures hΔ hcalls henv).bind fun v _ => ?_
    refine (hr.ensures hΔ hcalls henv).bind fun w _ => ?_
    -- an equality of values that are no words ends the program, but is not wrong
    exact ensures_operate fun hne => absurd ho hne
  | .unary he, env, ρ, henv => by
    rw [evaluate_unary]
    refine (he.ensures hΔ hcalls henv).bind fun v hv => ?_
    obtain ⟨n, rfl⟩ := hv.base_inv
    exact .pure .word
  | .sequence hes, env, ρ, henv => by
    rw [evaluate_sequence]
    refine (hes.ensures hΔ hcalls henv).bind fun vs hvs => .pure ?_
    rw [subst_getLastD]
    exact hvs.getLastD .word
  | .tuple hes, env, ρ, henv => by
    rw [evaluate_tuple]
    exact (hes.ensures hΔ hcalls henv).bind fun vs hvs => .pure (.tuple hvs)
  | .projection he hindex harity, env, ρ, henv => by
    rw [evaluate_projection]
    refine (he.ensures hΔ hcalls henv).bind fun v hv => ?_
    obtain ⟨vs, rfl, hvs⟩ := hv.tuple_inv
    have hlength := hvs.length_eq
    rw [substAll_eq_map] at hvs hlength
    have hget := congrArg (Option.map (SimpleType.subst ρ)) hindex
    rw [← List.getElem?_map] at hget
    obtain ⟨w, hw, htype⟩ := hvs.get hget
    rw [List.length_map] at hlength
    rw [Value.component?_tuple hw fun n hn => (harity n hn).trans hlength.symm]
    exact .pure htype
  | .dataType hcs hbody, env, ρ, henv => by
    rw [evaluate_dataType]
    exact hbody.ensures hΔ hcalls (bindConstructors_hasTypes hcs henv)
  | .matchWith he harms, env, ρ, henv => by
    rw [evaluate_matchWith]
    exact (he.ensures hΔ hcalls henv).bind fun v hv => harms.ensures hΔ hcalls henv hv

theorem HaveTypes.ensures (hΔ : (Δ.map Declaration.name).Nodup) (hcalls : CallsEnsure Δ k)
    {Γ : Context} {ns : List Node} {ts : List SimpleType} :
    HaveTypes Δ Γ ns ts → ∀ {env : Environment} {ρ : Nat → SimpleType},
      EnvironmentHasTypes Δ env Γ ρ →
        (Node.evaluateAll ns env).Ensures k fun vs => ValuesHaveTypes Δ vs (substAll ρ ts)
  | .nil, env, ρ, henv => .pure .nil
  | .cons hn hns, env, ρ, henv => by
    rw [evaluateAll_cons]
    refine (hn.ensures hΔ hcalls henv).bind fun v hv => ?_
    exact (hns.ensures hΔ hcalls henv).bind fun vs hvs => .pure (.cons hv hvs)

theorem ArmsHaveType.ensures (hΔ : (Δ.map Declaration.name).Nodup) (hcalls : CallsEnsure Δ k)
    {Γ : Context} {arms : List Node} {t u : SimpleType} :
    ArmsHaveType Δ Γ t arms u → ∀ {env : Environment} {ρ : Nat → SimpleType} {v : Value},
      EnvironmentHasTypes Δ env Γ ρ → ValueHasType Δ v (t.subst ρ) →
        (Node.evaluateArms arms env v).Ensures k fun w => ValueHasType Δ w (u.subst ρ)
  | .nil, env, ρ, v, henv, hv => .stop Stop.noConfusion
  | .cons (p := p) hp hbody hrest, env, ρ, v, henv, hv => by
    have hmatches := hp.matches hΔ hv henv
    cases hmatch : matchPattern env p v with
    | binds env' =>
      rw [hmatch] at hmatches
      rw [evaluateArms_binds hmatch]
      exact hbody.ensures hΔ hcalls hmatches
    | fails =>
      rw [evaluateArms_fails hmatch]
      exact hrest.ensures hΔ hcalls henv hv
    | misfit =>
      rw [hmatch] at hmatches
      exact hmatches.elim

end

end Typed

/-- **The call of a typed function** does not go wrong, and gives a value of the type of its
    result. -/
theorem call_ensures (hΔ : (Δ.map Declaration.name).Nodup) : ∀ k, CallsEnsure Δ k := by
  intro k
  induction k using Nat.strongRecOn with
  | _ k ih =>
    intro f v p r hf hv
    cases hf with
    | @builtin b _ _ h =>
      rw [call_builtin]
      cases hperform : b.perform v.word? with
      | error e => exact .stop (Builtin.perform_ne_wrong hperform)
      | ok text =>
        rw [h.resolve_left (Builtin.ne_panic_of_perform hperform)]
        exact (Ensures.print (P := fun _ => True) trivial text).bind fun _ _ => .pure .word
    | closure henv hbody =>
      rw [call_closure]
      exact .later fun j hj => hbody.ensures hΔ (ih j hj) (henv.bind hv)
    | member henv hgroup he =>
      obtain ⟨m, x, pa, ra, body, hfunction, hbody⟩ := hgroup.get he
      rw [call_member hfunction]
      exact .later fun j hj => hbody.ensures hΔ (ih j hj) ((bindGroup_ofGroup henv hgroup).bind hv)
    | @constructor d given next waiting vs hd hparameters hvs =>
      rw [call_constructor]
      have hvs' := hvs.append (.cons hv .nil)
      rw [← List.map_singleton, ← List.map_append] at hvs'
      refine .pure ?_
      cases waiting with
      | nil =>
        refine .data hd ?_
        rw [hparameters]
        exact hvs'
      | cons following waiting =>
        refine .constructor hd ?_ hvs'
        rw [hparameters, List.append_assoc]
        rfl

end ClosureML
