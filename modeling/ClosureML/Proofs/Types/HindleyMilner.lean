import ClosureML.Proofs.Syntax.Bare
import ClosureML.Proofs.Syntax.Declarations
import ClosureML.Proofs.Types.SimpleType

/-!
# The typing rules

The declarative rules of the language, without equations and without an order in which types are
found. Parameters, the names of patterns, and the functions of a group inside this group have one
type. A `let` binds its name to a *scheme*, and a `letrec` its functions for its body: there a name
may be used at every type that replaces quantified variables, which the surroundings must not hold.

* `Scheme` and `Scheme.Instance`, `Context` and `Context.Holds`;
* `Declaration.type`: the type of a constructor;
* `PatternHasType` and `HasType`: the rules. Marks do not matter to them.

Main statements: `HasType.congr` (marks do not matter) and `HasType.of_plain` (a derivation stays
one when what inference writes into a tree is taken out).
-/

namespace ClosureML

/-! ## 1. Schemes and contexts -/

/-- A type in which the quantified variables stand for any types. -/
structure Scheme where
  quantified : List Nat
  type : SimpleType

/-- The scheme of a name that has one type. -/
def Scheme.mono (t : SimpleType) : Scheme := ⟨[], t⟩

/-- A type that a scheme can be used at: its quantified variables are replaced. -/
def Scheme.Instance (σ : Scheme) (t : SimpleType) : Prop :=
  ∃ ρ : Nat → SimpleType, (∀ n, n ∉ σ.quantified → ρ n = .var n) ∧ t = σ.type.subst ρ

/-- A name that has one type is used at this type. -/
theorem Scheme.mono_instance {t u : SimpleType} : (mono t).Instance u ↔ u = t := by
  constructor
  · rintro ⟨ρ, hρ, rfl⟩
    have : ρ = .var := funext fun n => hρ n List.not_mem_nil
    rw [this]
    exact t.subst_var
  · rintro rfl
    exact ⟨.var, fun _ _ => rfl, u.subst_var.symm⟩

/-- The names in scope with their schemes, the innermost first. -/
abbrev Context := List (String × Scheme)

namespace Context

/-- A variable that the types of the context hold: it must not be quantified inside. -/
def Holds (Γ : Context) (n : Nat) : Prop :=
  ∃ entry ∈ Γ, n ∈ entry.2.type.vars ∧ n ∉ entry.2.quantified

/-- The bindings of names that have one type each, the last of them innermost. -/
def ofTypes (bindings : List (String × SimpleType)) : Context :=
  (bindings.map fun (x, t) => (x, .mono t)).reverse

end Context

/-! ## 2. Declarations and ascriptions -/

namespace Declaration

/-- The type of the constructor: a function of its parameters, one after the other. -/
def type (d : Declaration) : SimpleType :=
  (d.parameters.map TypeExpr.simple).foldr .function (.data d.dataType)

/-- The constructor and its type. -/
def binding (d : Declaration) : String × SimpleType := (d.name, d.type)

end Declaration

/-- The type agrees with the ascription, if there is one. -/
def Ascribed (ascription : Option TypeExpr) (t : SimpleType) : Prop :=
  ∀ e, ascription = some e → t = e.simple

/-! ## 3. Patterns -/

mutual

/-- The pattern matches values of the type, and binds names to types, from left to right. -/
inductive PatternHasType (Δ : List Declaration) :
    Node → SimpleType → List (String × SimpleType) → Prop where
  | binder {m : Mark} {x : String} {t : SimpleType} :
      PatternHasType Δ (.patternBinder m x) t [(x, t)]
  | literal {m : Mark} {v : Literal} :
      PatternHasType Δ (.patternLiteral m v) (.base v.baseType) []
  | tuple {m : Mark} {ps : List Node} {ts : List SimpleType}
      {bindings : List (String × SimpleType)} (hps : PatternsHaveTypes Δ ps ts bindings) :
      PatternHasType Δ (.patternTuple m ps) (.tuple ts) bindings
  | constructor {m : Mark} {d : Declaration} {ps : List Node} {tag : Option Nat}
      {bindings : List (String × SimpleType)} (hd : d ∈ Δ)
      (hps : PatternsHaveTypes Δ ps (d.parameters.map TypeExpr.simple) bindings) :
      PatternHasType Δ (.patternConstructor m d.name ps tag) (.data d.dataType) bindings

/-- The patterns match values of the types, one by one. -/
inductive PatternsHaveTypes (Δ : List Declaration) :
    List Node → List SimpleType → List (String × SimpleType) → Prop where
  | nil : PatternsHaveTypes Δ [] [] []
  | cons {p : Node} {ps : List Node} {t : SimpleType} {ts : List SimpleType}
      {bindings more : List (String × SimpleType)} (hp : PatternHasType Δ p t bindings)
      (hps : PatternsHaveTypes Δ ps ts more) :
      PatternsHaveTypes Δ (p :: ps) (t :: ts) (bindings ++ more)

end

/-! ## 4. Expressions -/

/-- A function of a group: its name, the types of its parameter and its result, and the variables
    that are quantified for the body behind the group. -/
structure GroupEntry where
  name : String
  parameter : SimpleType
  result : SimpleType
  quantified : List Nat

namespace GroupEntry

/-- The type of the function. -/
def type (e : GroupEntry) : SimpleType := .function e.parameter e.result

end GroupEntry

namespace Context

/-- The functions of a group, as its own bodies see them. -/
def ofGroup (group : List GroupEntry) : Context :=
  (group.map fun e => (e.name, .mono e.type)).reverse

/-- The functions of a group, as the body behind it sees them. -/
def behindGroup (group : List GroupEntry) : Context :=
  (group.map fun e => (e.name, ⟨e.quantified, e.type⟩)).reverse

end Context

mutual

/-- **The typing rules.** `Δ` are the constructors that are declared. -/
inductive HasType (Δ : List Declaration) : Context → Node → SimpleType → Prop where
  | top {Γ : Context} {m : Mark} {e : Node} {t : SimpleType} (he : HasType Δ Γ e t) :
      HasType Δ Γ (.top m e) t
  | literal {Γ : Context} {m : Mark} {v : Literal} :
      HasType Δ Γ (.literal m v) (.base v.baseType)
  | reference {Γ : Context} {m : Mark} {x : String} {σ : Scheme} {t : SimpleType}
      (hx : Γ.lookup x = some σ) (ht : σ.Instance t) : HasType Δ Γ (.reference m x) t
  | printer {Γ : Context} {m : Mark} {b : Builtin} {t : SimpleType} (hb : b ≠ .panic) :
      HasType Δ Γ (.builtin m b) (.function t .unit)
  | panic {Γ : Context} {m : Mark} {t u : SimpleType} :
      HasType Δ Γ (.builtin m .panic) (.function t u)
  | lambda {Γ : Context} {m : Mark} {x : String} {ascription : Option TypeExpr} {body : Node}
      {t u : SimpleType} (ha : Ascribed ascription t)
      (hbody : HasType Δ ((x, .mono t) :: Γ) body u) :
      HasType Δ Γ (.lambda m x ascription body) (.function t u)
  | application {Γ : Context} {m : Mark} {function argument : Node} {t u : SimpleType}
      (hf : HasType Δ Γ function (.function t u)) (ha : HasType Δ Γ argument t) :
      HasType Δ Γ (.application m function argument) u
  | letIn {Γ : Context} {m : Mark} {x : String} {ascription : Option TypeExpr} {value body : Node}
      {t u : SimpleType} {quantified : List Nat} (ha : Ascribed ascription t)
      (hvalue : HasType Δ Γ value t) (hfree : ∀ n ∈ quantified, ¬ Γ.Holds n)
      (hbody : HasType Δ ((x, ⟨quantified, t⟩) :: Γ) body u) :
      HasType Δ Γ (.letIn m x ascription value body) u
  | letRec {Γ : Context} {m : Mark} {arms : List Node} {body : Node} {group : List GroupEntry}
      {u : SimpleType} (harms : GroupHasTypes Δ (Context.ofGroup group ++ Γ) arms group)
      (hfree : ∀ e ∈ group, ∀ n ∈ e.quantified, ¬ Γ.Holds n)
      (hbody : HasType Δ (Context.behindGroup group ++ Γ) body u) :
      HasType Δ Γ (.letRec m arms body) u
  | conditional {Γ : Context} {m : Mark} {condition thenBranch elseBranch : Node} {t : SimpleType}
      (hc : HasType Δ Γ condition .bool) (ht : HasType Δ Γ thenBranch t)
      (he : HasType Δ Γ elseBranch t) :
      HasType Δ Γ (.conditional m condition thenBranch elseBranch) t
  | arithmetic {Γ : Context} {m : Mark} {o : BinaryOperator} {l r : Node}
      (ho : o.operatorClass = .arithmetic) (hl : HasType Δ Γ l .int) (hr : HasType Δ Γ r .int) :
      HasType Δ Γ (.binary m o l r) .int
  | relational {Γ : Context} {m : Mark} {o : BinaryOperator} {l r : Node}
      (ho : o.operatorClass = .relational) (hl : HasType Δ Γ l .int) (hr : HasType Δ Γ r .int) :
      HasType Δ Γ (.binary m o l r) .bool
  | equality {Γ : Context} {m : Mark} {o : BinaryOperator} {l r : Node} {t : SimpleType}
      (ho : o.operatorClass = .equality) (hl : HasType Δ Γ l t) (hr : HasType Δ Γ r t) :
      HasType Δ Γ (.binary m o l r) .bool
  | unary {Γ : Context} {m : Mark} {o : UnaryOperator} {e : Node} (he : HasType Δ Γ e .int) :
      HasType Δ Γ (.unary m o e) .int
  | sequence {Γ : Context} {m : Mark} {es : List Node} {ts : List SimpleType}
      (hes : HaveTypes Δ Γ es ts) : HasType Δ Γ (.sequence m es) (ts.getLastD .unit)
  | tuple {Γ : Context} {m : Mark} {es : List Node} {ts : List SimpleType}
      (hes : HaveTypes Δ Γ es ts) : HasType Δ Γ (.tuple m es) (.tuple ts)
  | projection {Γ : Context} {m : Mark} {index : Nat} {arity : Option Nat} {e : Node}
      {ts : List SimpleType} {t : SimpleType} (he : HasType Δ Γ e (.tuple ts))
      (hindex : ts[index]? = some t) (harity : ∀ n, arity = some n → n = ts.length) :
      HasType Δ Γ (.projection m index arity e) t
  | dataType {Γ : Context} {m : Mark} {d : String} {cs : List Node} {body : Node} {u : SimpleType}
      (hcs : ∀ c ∈ Node.declared d cs, c ∈ Δ)
      (hbody :
        HasType Δ (Context.ofTypes ((Node.declared d cs).map Declaration.binding) ++ Γ) body u) :
      HasType Δ Γ (.dataType m d cs body) u
  | matchWith {Γ : Context} {m : Mark} {e : Node} {arms : List Node} {t u : SimpleType}
      (he : HasType Δ Γ e t) (harms : ArmsHaveType Δ Γ t arms u) :
      HasType Δ Γ (.matchWith m e arms) u

/-- The expressions have the types, one by one. -/
inductive HaveTypes (Δ : List Declaration) : Context → List Node → List SimpleType → Prop where
  | nil {Γ : Context} : HaveTypes Δ Γ [] []
  | cons {Γ : Context} {n : Node} {ns : List Node} {t : SimpleType} {ts : List SimpleType}
      (hn : HasType Δ Γ n t) (hns : HaveTypes Δ Γ ns ts) : HaveTypes Δ Γ (n :: ns) (t :: ts)

/-- The functions of a group, which the context binds, have the types. -/
inductive GroupHasTypes (Δ : List Declaration) : Context → List Node → List GroupEntry → Prop where
  | nil {Γ : Context} : GroupHasTypes Δ Γ [] []
  | cons {Γ : Context} {m : Mark} {x : String} {pa ra : Option TypeExpr} {body : Node}
      {rest : List Node} {e : GroupEntry} {es : List GroupEntry} (hp : Ascribed pa e.parameter)
      (hr : Ascribed ra e.result) (hbody : HasType Δ ((x, .mono e.parameter) :: Γ) body e.result)
      (hrest : GroupHasTypes Δ Γ rest es) :
      GroupHasTypes Δ Γ (.letRecArm m e.name x pa ra body :: rest) (e :: es)

/-- The arms match values of the type `t`, and have the type `u`. -/
inductive ArmsHaveType (Δ : List Declaration) :
    Context → SimpleType → List Node → SimpleType → Prop where
  | nil {Γ : Context} {t u : SimpleType} : ArmsHaveType Δ Γ t [] u
  | cons {Γ : Context} {m : Mark} {p body : Node} {rest : List Node} {t u : SimpleType}
      {bindings : List (String × SimpleType)} (hp : PatternHasType Δ p t bindings)
      (hbody : HasType Δ (Context.ofTypes bindings ++ Γ) body u)
      (hrest : ArmsHaveType Δ Γ t rest u) :
      ArmsHaveType Δ Γ t (.matchArm m p body :: rest) u

end

/-! ## 5. What a derivation is made of -/

section Inversion

variable {Δ : List Declaration} {Γ : Context} {m : Mark} {t u : SimpleType}

theorem patternHasType_binder {x : String} {bindings : List (String × SimpleType)} :
    PatternHasType Δ (.patternBinder m x) t bindings ↔ bindings = [(x, t)] :=
  ⟨fun h => by cases h; rfl, fun h => h ▸ .binder⟩

theorem patternHasType_literal {v : Literal} {bindings : List (String × SimpleType)} :
    PatternHasType Δ (.patternLiteral m v) t bindings ↔ t = .base v.baseType ∧ bindings = [] :=
  ⟨fun h => by cases h; exact ⟨rfl, rfl⟩, fun ⟨ht, hb⟩ => ht ▸ hb ▸ .literal⟩

theorem patternHasType_tuple {ps : List Node} {bindings : List (String × SimpleType)} :
    PatternHasType Δ (.patternTuple m ps) t bindings ↔
      ∃ ts, t = .tuple ts ∧ PatternsHaveTypes Δ ps ts bindings :=
  ⟨fun h => by cases h with | tuple hps => exact ⟨_, rfl, hps⟩, fun ⟨_, ht, hps⟩ => ht ▸ .tuple hps⟩

theorem patternHasType_constructor {c : String} {ps : List Node} {tag : Option Nat}
    {bindings : List (String × SimpleType)} :
    PatternHasType Δ (.patternConstructor m c ps tag) t bindings ↔
      ∃ d ∈ Δ, c = d.name ∧ t = .data d.dataType ∧
        PatternsHaveTypes Δ ps (d.parameters.map TypeExpr.simple) bindings := by
  constructor
  · intro h
    cases h with
    | constructor hd hps => exact ⟨_, hd, rfl, rfl, hps⟩
  · rintro ⟨d, hd, rfl, rfl, hps⟩
    exact .constructor hd hps

theorem patternsHaveTypes_nil {ts : List SimpleType} {bindings : List (String × SimpleType)} :
    PatternsHaveTypes Δ [] ts bindings ↔ ts = [] ∧ bindings = [] :=
  ⟨fun h => by cases h; exact ⟨rfl, rfl⟩, fun ⟨ht, hb⟩ => ht ▸ hb ▸ .nil⟩

theorem patternsHaveTypes_cons {p : Node} {ps : List Node} {ts : List SimpleType}
    {bindings : List (String × SimpleType)} :
    PatternsHaveTypes Δ (p :: ps) ts bindings ↔
      ∃ t us first more, ts = t :: us ∧ bindings = first ++ more ∧ PatternHasType Δ p t first ∧
        PatternsHaveTypes Δ ps us more := by
  constructor
  · intro h
    cases h with
    | cons hp hps => exact ⟨_, _, _, _, rfl, rfl, hp, hps⟩
  · rintro ⟨t, us, first, more, rfl, rfl, hp, hps⟩
    exact .cons hp hps

theorem PatternsHaveTypes.length_eq : ∀ {ps : List Node} {ts : List SimpleType}
    {bindings : List (String × SimpleType)}, PatternsHaveTypes Δ ps ts bindings →
      ps.length = ts.length
  | _, _, _, .nil => rfl
  | _, _, _, .cons _ hps => congrArg (· + 1) hps.length_eq

theorem hasType_top {e : Node} : HasType Δ Γ (.top m e) t ↔ HasType Δ Γ e t :=
  ⟨fun h => by cases h with | top he => exact he, .top⟩

theorem hasType_literal {v : Literal} :
    HasType Δ Γ (.literal m v) t ↔ t = .base v.baseType :=
  ⟨fun h => by cases h; rfl, fun h => h ▸ .literal⟩

theorem hasType_reference {x : String} :
    HasType Δ Γ (.reference m x) t ↔ ∃ σ, Γ.lookup x = some σ ∧ σ.Instance t :=
  ⟨fun h => by cases h with | reference hx ht => exact ⟨_, hx, ht⟩,
    fun ⟨_, hx, ht⟩ => .reference hx ht⟩

theorem hasType_builtin {b : Builtin} :
    HasType Δ Γ (.builtin m b) t ↔ ∃ p r, t = .function p r ∧ (b = .panic ∨ r = .unit) := by
  constructor
  · intro h
    cases h with
    | printer hb => exact ⟨_, _, rfl, .inr rfl⟩
    | panic => exact ⟨_, _, rfl, .inl rfl⟩
  · rintro ⟨p, r, rfl, h⟩
    by_cases hb : b = .panic
    · exact hb ▸ .panic
    · rw [h.resolve_left hb]
      exact .printer hb

theorem hasType_lambda {x : String} {ascription : Option TypeExpr} {body : Node} :
    HasType Δ Γ (.lambda m x ascription body) t ↔
      ∃ p r, t = .function p r ∧ Ascribed ascription p ∧
        HasType Δ ((x, .mono p) :: Γ) body r := by
  constructor
  · intro h
    cases h with
    | lambda ha hbody => exact ⟨_, _, rfl, ha, hbody⟩
  · rintro ⟨p, r, rfl, ha, hbody⟩
    exact .lambda ha hbody

theorem hasType_application {f a : Node} :
    HasType Δ Γ (.application m f a) t ↔
      ∃ p, HasType Δ Γ f (.function p t) ∧ HasType Δ Γ a p :=
  ⟨fun h => by cases h with | application hf ha => exact ⟨_, hf, ha⟩,
    fun ⟨_, hf, ha⟩ => .application hf ha⟩

theorem hasType_letIn {x : String} {ascription : Option TypeExpr} {value body : Node} :
    HasType Δ Γ (.letIn m x ascription value body) t ↔
      ∃ u quantified, Ascribed ascription u ∧ HasType Δ Γ value u ∧
        (∀ n ∈ quantified, ¬ Γ.Holds n) ∧ HasType Δ ((x, ⟨quantified, u⟩) :: Γ) body t := by
  constructor
  · intro h
    cases h with
    | letIn ha hvalue hfree hbody => exact ⟨_, _, ha, hvalue, hfree, hbody⟩
  · rintro ⟨u, quantified, ha, hvalue, hfree, hbody⟩
    exact .letIn ha hvalue hfree hbody

theorem hasType_letRec {arms : List Node} {body : Node} :
    HasType Δ Γ (.letRec m arms body) t ↔
      ∃ group, GroupHasTypes Δ (Context.ofGroup group ++ Γ) arms group ∧
        (∀ e ∈ group, ∀ n ∈ e.quantified, ¬ Γ.Holds n) ∧
        HasType Δ (Context.behindGroup group ++ Γ) body t := by
  constructor
  · intro h
    cases h with
    | letRec harms hfree hbody => exact ⟨_, harms, hfree, hbody⟩
  · rintro ⟨group, harms, hfree, hbody⟩
    exact .letRec harms hfree hbody

theorem hasType_conditional {c a b : Node} :
    HasType Δ Γ (.conditional m c a b) t ↔
      HasType Δ Γ c .bool ∧ HasType Δ Γ a t ∧ HasType Δ Γ b t := by
  constructor
  · intro h
    cases h with
    | conditional hc ha hb => exact ⟨hc, ha, hb⟩
  · rintro ⟨hc, ha, hb⟩
    exact .conditional hc ha hb

/-- The operands and the result of an operator have these types. -/
def OperatorClass.Relates : OperatorClass → SimpleType → SimpleType → Prop
  | arithmetic, operand, result => operand = .int ∧ result = .int
  | relational, operand, result => operand = .int ∧ result = .bool
  | equality, _, result => result = .bool

theorem hasType_binary {o : BinaryOperator} {l r : Node} :
    HasType Δ Γ (.binary m o l r) t ↔
      ∃ u, o.operatorClass.Relates u t ∧ HasType Δ Γ l u ∧ HasType Δ Γ r u := by
  constructor
  · intro h
    cases h with
    | arithmetic ho hl hr => exact ⟨_, by rw [ho]; exact ⟨rfl, rfl⟩, hl, hr⟩
    | relational ho hl hr => exact ⟨_, by rw [ho]; exact ⟨rfl, rfl⟩, hl, hr⟩
    | equality ho hl hr => exact ⟨_, by rw [ho]; exact rfl, hl, hr⟩
  · rintro ⟨u, hu, hl, hr⟩
    cases ho : o.operatorClass with
    | arithmetic =>
      obtain ⟨rfl, rfl⟩ := ho ▸ hu
      exact .arithmetic ho hl hr
    | relational =>
      obtain ⟨rfl, rfl⟩ := ho ▸ hu
      exact .relational ho hl hr
    | equality =>
      obtain rfl := ho ▸ hu
      exact .equality ho hl hr

theorem hasType_unary {o : UnaryOperator} {e : Node} :
    HasType Δ Γ (.unary m o e) t ↔ t = .int ∧ HasType Δ Γ e .int :=
  ⟨fun h => by cases h with | unary he => exact ⟨rfl, he⟩, fun ⟨ht, he⟩ => ht ▸ .unary he⟩

theorem hasType_sequence {es : List Node} :
    HasType Δ Γ (.sequence m es) t ↔ ∃ ts, t = ts.getLastD .unit ∧ HaveTypes Δ Γ es ts :=
  ⟨fun h => by cases h with | sequence hes => exact ⟨_, rfl, hes⟩,
    fun ⟨_, ht, hes⟩ => ht ▸ .sequence hes⟩

theorem hasType_tuple {es : List Node} :
    HasType Δ Γ (.tuple m es) t ↔ ∃ ts, t = .tuple ts ∧ HaveTypes Δ Γ es ts :=
  ⟨fun h => by cases h with | tuple hes => exact ⟨_, rfl, hes⟩, fun ⟨_, ht, hes⟩ => ht ▸ .tuple hes⟩

theorem hasType_projection {index : Nat} {arity : Option Nat} {e : Node} :
    HasType Δ Γ (.projection m index arity e) t ↔
      ∃ ts, HasType Δ Γ e (.tuple ts) ∧ ts[index]? = some t ∧
        ∀ n, arity = some n → n = ts.length := by
  constructor
  · intro h
    cases h with
    | projection he hindex harity => exact ⟨_, he, hindex, harity⟩
  · rintro ⟨ts, he, hindex, harity⟩
    exact .projection he hindex harity

theorem hasType_dataType {d : String} {cs : List Node} {body : Node} :
    HasType Δ Γ (.dataType m d cs body) t ↔
      (∀ c ∈ Node.declared d cs, c ∈ Δ) ∧
        HasType Δ (Context.ofTypes ((Node.declared d cs).map Declaration.binding) ++ Γ) body t := by
  constructor
  · intro h
    cases h with
    | dataType hcs hbody => exact ⟨hcs, hbody⟩
  · rintro ⟨hcs, hbody⟩
    exact .dataType hcs hbody

theorem hasType_matchWith {e : Node} {arms : List Node} :
    HasType Δ Γ (.matchWith m e arms) t ↔ ∃ u, HasType Δ Γ e u ∧ ArmsHaveType Δ Γ u arms t :=
  ⟨fun h => by cases h with | matchWith he harms => exact ⟨_, he, harms⟩,
    fun ⟨_, he, harms⟩ => .matchWith he harms⟩

theorem haveTypes_nil {ts : List SimpleType} : HaveTypes Δ Γ [] ts ↔ ts = [] :=
  ⟨fun h => by cases h; rfl, fun h => h ▸ .nil⟩

theorem haveTypes_cons {n : Node} {ns : List Node} {ts : List SimpleType} :
    HaveTypes Δ Γ (n :: ns) ts ↔
      ∃ t us, ts = t :: us ∧ HasType Δ Γ n t ∧ HaveTypes Δ Γ ns us := by
  constructor
  · intro h
    cases h with
    | cons hn hns => exact ⟨_, _, rfl, hn, hns⟩
  · rintro ⟨t, us, rfl, hn, hns⟩
    exact .cons hn hns

theorem groupHasTypes_nil {es : List GroupEntry} : GroupHasTypes Δ Γ [] es ↔ es = [] :=
  ⟨fun h => by cases h; rfl, fun h => h ▸ .nil⟩

theorem groupHasTypes_cons {f x : String} {pa ra : Option TypeExpr} {body : Node}
    {rest : List Node} {group : List GroupEntry} :
    GroupHasTypes Δ Γ (.letRecArm m f x pa ra body :: rest) group ↔
      ∃ e es, group = e :: es ∧ f = e.name ∧ Ascribed pa e.parameter ∧ Ascribed ra e.result ∧
        HasType Δ ((x, .mono e.parameter) :: Γ) body e.result ∧ GroupHasTypes Δ Γ rest es := by
  constructor
  · intro h
    cases h with
    | cons hp hr hbody hrest => exact ⟨_, _, rfl, rfl, hp, hr, hbody, hrest⟩
  · rintro ⟨e, es, rfl, rfl, hp, hr, hbody, hrest⟩
    exact .cons hp hr hbody hrest

theorem armsHaveType_cons {p body : Node} {rest : List Node} :
    ArmsHaveType Δ Γ t (.matchArm m p body :: rest) u ↔
      (∃ bindings, PatternHasType Δ p t bindings ∧
        HasType Δ (Context.ofTypes bindings ++ Γ) body u) ∧ ArmsHaveType Δ Γ t rest u := by
  constructor
  · intro h
    cases h with
    | cons hp hbody hrest => exact ⟨⟨_, hp, hbody⟩, hrest⟩
  · rintro ⟨⟨bindings, hp, hbody⟩, hrest⟩
    exact .cons hp hbody hrest

end Inversion

/-! ## 6. Marks and recorded numbers -/

section Marks

variable {Δ : List Declaration} {Γ : Context}

open Node (bareAll mapAllMarks unsizedAll)

/-- A list of trees without marks has a first tree without marks. -/
theorem bareAll_eq_cons {ns ms : List Node} {n : Node} (h : bareAll ms = bareAll (n :: ns)) :
    ∃ m rest, ms = m :: rest ∧ m.bare = n.bare ∧ bareAll rest = bareAll ns := by
  cases ms with
  | nil => simp [bareAll, mapAllMarks] at h
  | cons m rest =>
    rw [bareAll, bareAll, mapAllMarks, mapAllMarks, List.cons.injEq] at h
    exact ⟨m, rest, rfl, h⟩

theorem bareAll_eq_nil {ms : List Node} (h : bareAll ms = bareAll []) : ms = [] := by
  cases ms with
  | nil => rfl
  | cons m rest => simp [bareAll, mapAllMarks] at h

mutual

theorem PatternHasType.congr {p : Node} {t : SimpleType} {bindings : List (String × SimpleType)} :
    PatternHasType Δ p t bindings → ∀ n' : Node, n'.bare = p.bare → PatternHasType Δ n' t bindings
  | .binder, n', h => by
    cases n' <;>
      simp only [Node.bare, Node.mapMarks, reduceCtorEq, Node.patternBinder.injEq, true_and] at h
    exact h ▸ .binder
  | .literal, n', h => by
    cases n' <;>
      simp only [Node.bare, Node.mapMarks, reduceCtorEq, Node.patternLiteral.injEq, true_and] at h
    exact h ▸ .literal
  | .tuple hps, n', h => by
    cases n' <;>
      simp only [Node.bare, Node.mapMarks, reduceCtorEq, Node.patternTuple.injEq, true_and] at h
    exact .tuple (hps.congr _ h)
  | .constructor hd hps, n', h => by
    cases n' <;>
      simp only [Node.bare, Node.mapMarks, reduceCtorEq, Node.patternConstructor.injEq,
        true_and] at h
    obtain ⟨rfl, h, -⟩ := h
    exact .constructor hd (hps.congr _ h)

theorem PatternsHaveTypes.congr {ps : List Node} {ts : List SimpleType}
    {bindings : List (String × SimpleType)} :
    PatternsHaveTypes Δ ps ts bindings →
      ∀ ns : List Node, bareAll ns = bareAll ps → PatternsHaveTypes Δ ns ts bindings
  | .nil, ns, h => by
    rw [bareAll_eq_nil h]
    exact .nil
  | .cons hp hps, ns, h => by
    obtain ⟨n, rest, rfl, hn, hrest⟩ := bareAll_eq_cons h
    exact .cons (hp.congr n hn) (hps.congr rest hrest)

end

mutual

/-- **Marks do not matter to a derivation.** -/
theorem HasType.congr {Γ : Context} {n : Node} {t : SimpleType} :
    HasType Δ Γ n t → ∀ n' : Node, n'.bare = n.bare → HasType Δ Γ n' t
  | .top he, n', h => by
    cases n' <;> simp only [Node.bare, Node.mapMarks, reduceCtorEq, Node.top.injEq, true_and] at h
    exact .top (he.congr _ h)
  | .literal, n', h => by
    cases n' <;>
      simp only [Node.bare, Node.mapMarks, reduceCtorEq, Node.literal.injEq, true_and] at h
    exact h ▸ .literal
  | .reference hx ht, n', h => by
    cases n' <;>
      simp only [Node.bare, Node.mapMarks, reduceCtorEq, Node.reference.injEq, true_and] at h
    exact h ▸ .reference hx ht
  | .printer hb, n', h => by
    cases n' <;>
      simp only [Node.bare, Node.mapMarks, reduceCtorEq, Node.builtin.injEq, true_and] at h
    exact h ▸ .printer hb
  | .panic, n', h => by
    cases n' <;>
      simp only [Node.bare, Node.mapMarks, reduceCtorEq, Node.builtin.injEq, true_and] at h
    exact h ▸ .panic
  | .lambda ha hbody, n', h => by
    cases n' <;>
      simp only [Node.bare, Node.mapMarks, reduceCtorEq, Node.lambda.injEq, true_and] at h
    obtain ⟨hx, rfl, h⟩ := h
    obtain rfl := hx.symm
    exact .lambda ha (hbody.congr _ h)
  | .application hf ha, n', h => by
    cases n' <;>
      simp only [Node.bare, Node.mapMarks, reduceCtorEq, Node.application.injEq, true_and] at h
    exact .application (hf.congr _ h.1) (ha.congr _ h.2)
  | .letIn ha hvalue hfree hbody, n', h => by
    cases n' <;> simp only [Node.bare, Node.mapMarks, reduceCtorEq, Node.letIn.injEq, true_and] at h
    obtain ⟨hx, rfl, hv, hb⟩ := h
    obtain rfl := hx.symm
    exact .letIn ha (hvalue.congr _ hv) hfree (hbody.congr _ hb)
  | .letRec harms hfree hbody, n', h => by
    cases n' <;>
      simp only [Node.bare, Node.mapMarks, reduceCtorEq, Node.letRec.injEq, true_and] at h
    exact .letRec (harms.congr _ h.1) hfree (hbody.congr _ h.2)
  | .conditional hc ht he, n', h => by
    cases n' <;>
      simp only [Node.bare, Node.mapMarks, reduceCtorEq, Node.conditional.injEq, true_and] at h
    exact .conditional (hc.congr _ h.1) (ht.congr _ h.2.1) (he.congr _ h.2.2)
  | .arithmetic ho hl hr, n', h => by
    cases n' <;>
      simp only [Node.bare, Node.mapMarks, reduceCtorEq, Node.binary.injEq, true_and] at h
    obtain ⟨rfl, h₁, h₂⟩ := h
    exact .arithmetic ho (hl.congr _ h₁) (hr.congr _ h₂)
  | .relational ho hl hr, n', h => by
    cases n' <;>
      simp only [Node.bare, Node.mapMarks, reduceCtorEq, Node.binary.injEq, true_and] at h
    obtain ⟨rfl, h₁, h₂⟩ := h
    exact .relational ho (hl.congr _ h₁) (hr.congr _ h₂)
  | .equality ho hl hr, n', h => by
    cases n' <;>
      simp only [Node.bare, Node.mapMarks, reduceCtorEq, Node.binary.injEq, true_and] at h
    obtain ⟨rfl, h₁, h₂⟩ := h
    exact .equality ho (hl.congr _ h₁) (hr.congr _ h₂)
  | .unary he, n', h => by
    cases n' <;> simp only [Node.bare, Node.mapMarks, reduceCtorEq, Node.unary.injEq, true_and] at h
    exact .unary (he.congr _ h)
  | .sequence hes, n', h => by
    cases n' <;>
      simp only [Node.bare, Node.mapMarks, reduceCtorEq, Node.sequence.injEq, true_and] at h
    exact .sequence (hes.congr _ h)
  | .tuple hes, n', h => by
    cases n' <;> simp only [Node.bare, Node.mapMarks, reduceCtorEq, Node.tuple.injEq, true_and] at h
    exact .tuple (hes.congr _ h)
  | .projection he hindex harity, n', h => by
    cases n' <;>
      simp only [Node.bare, Node.mapMarks, reduceCtorEq, Node.projection.injEq, true_and] at h
    obtain ⟨rfl, rfl, h⟩ := h
    exact .projection (he.congr _ h) hindex harity
  | .dataType hcs hbody, n', h => by
    cases n' <;>
      simp only [Node.bare, Node.mapMarks, reduceCtorEq, Node.dataType.injEq, true_and] at h
    obtain ⟨hd, hc, hb⟩ := h
    obtain rfl := hd.symm
    refine .dataType (declared_congr hc ▸ hcs) ?_
    rw [declared_congr hc]
    exact hbody.congr _ hb
  | .matchWith he harms, n', h => by
    cases n' <;>
      simp only [Node.bare, Node.mapMarks, reduceCtorEq, Node.matchWith.injEq, true_and] at h
    exact .matchWith (he.congr _ h.1) (harms.congr _ h.2)
termination_by structural h => h

theorem HaveTypes.congr {Γ : Context} {ns : List Node} {ts : List SimpleType} :
    HaveTypes Δ Γ ns ts → ∀ ms : List Node, bareAll ms = bareAll ns → HaveTypes Δ Γ ms ts
  | .nil, ms, h => by
    rw [bareAll_eq_nil h]
    exact .nil
  | .cons hn hns, ms, h => by
    obtain ⟨m, rest, rfl, hm, hrest⟩ := bareAll_eq_cons h
    exact .cons (hn.congr m hm) (hns.congr rest hrest)
termination_by structural h => h

theorem GroupHasTypes.congr {Γ : Context} {ns : List Node} {es : List GroupEntry} :
    GroupHasTypes Δ Γ ns es → ∀ ms : List Node, bareAll ms = bareAll ns → GroupHasTypes Δ Γ ms es
  | .nil, ms, h => by
    rw [bareAll_eq_nil h]
    exact .nil
  | .cons hp hr hbody hrest, ms, h => by
    obtain ⟨n', rest, rfl, hn, hms⟩ := bareAll_eq_cons h
    cases n' <;>
      simp only [Node.bare, Node.mapMarks, reduceCtorEq, Node.letRecArm.injEq, true_and] at hn
    obtain ⟨rfl, hx, rfl, rfl, hn⟩ := hn
    obtain rfl := hx.symm
    exact .cons hp hr (hbody.congr _ hn) (hrest.congr _ hms)
termination_by structural h => h

theorem ArmsHaveType.congr {Γ : Context} {ns : List Node} {t u : SimpleType} :
    ArmsHaveType Δ Γ t ns u → ∀ ms : List Node, bareAll ms = bareAll ns → ArmsHaveType Δ Γ t ms u
  | .nil, ms, h => by
    rw [bareAll_eq_nil h]
    exact .nil
  | .cons hp hbody hrest, ms, h => by
    obtain ⟨n', rest, rfl, hn, hms⟩ := bareAll_eq_cons h
    cases n' <;>
      simp only [Node.bare, Node.mapMarks, reduceCtorEq, Node.matchArm.injEq, true_and] at hn
    exact .cons (hp.congr _ hn.1) (hbody.congr _ hn.2) (hrest.congr _ hms)
termination_by structural h => h

end

mutual

theorem PatternHasType.unsized {p : Node} {t : SimpleType} {bindings : List (String × SimpleType)} :
    PatternHasType Δ p t bindings → PatternHasType Δ p.unsized t bindings
  | .binder => .binder
  | .literal => .literal
  | .tuple hps => .tuple hps.unsized
  | .constructor hd hps => .constructor hd hps.unsized

theorem PatternsHaveTypes.unsized {ps : List Node} {ts : List SimpleType}
    {bindings : List (String × SimpleType)} :
    PatternsHaveTypes Δ ps ts bindings → PatternsHaveTypes Δ (unsizedAll ps) ts bindings
  | .nil => .nil
  | .cons hp hps => .cons hp.unsized hps.unsized

end

mutual

/-- **Recorded numbers of elements do not matter** once a derivation has them right. -/
theorem HasType.unsized {Γ : Context} {n : Node} {t : SimpleType} :
    HasType Δ Γ n t → HasType Δ Γ n.unsized t
  | .top he => .top he.unsized
  | .literal => .literal
  | .reference hx ht => .reference hx ht
  | .printer hb => .printer hb
  | .panic => .panic
  | .lambda ha hbody => .lambda ha hbody.unsized
  | .application hf ha => .application hf.unsized ha.unsized
  | .letIn ha hvalue hfree hbody => .letIn ha hvalue.unsized hfree hbody.unsized
  | .letRec harms hfree hbody => .letRec harms.unsized hfree hbody.unsized
  | .conditional hc ht he => .conditional hc.unsized ht.unsized he.unsized
  | .arithmetic ho hl hr => .arithmetic ho hl.unsized hr.unsized
  | .relational ho hl hr => .relational ho hl.unsized hr.unsized
  | .equality ho hl hr => .equality ho hl.unsized hr.unsized
  | .unary he => .unary he.unsized
  | .sequence hes => .sequence hes.unsized
  | .tuple hes => .tuple hes.unsized
  | .projection he hindex _ => .projection he.unsized hindex fun _ h => nomatch h
  | .dataType hcs hbody => by
    rw [← declared_unsizedAll] at hcs hbody
    exact .dataType hcs hbody.unsized
  | .matchWith he harms => .matchWith he.unsized harms.unsized

theorem HaveTypes.unsized {Γ : Context} {ns : List Node} {ts : List SimpleType} :
    HaveTypes Δ Γ ns ts → HaveTypes Δ Γ (unsizedAll ns) ts
  | .nil => .nil
  | .cons hn hns => .cons hn.unsized hns.unsized

theorem GroupHasTypes.unsized {Γ : Context} {ns : List Node} {es : List GroupEntry} :
    GroupHasTypes Δ Γ ns es → GroupHasTypes Δ Γ (unsizedAll ns) es
  | .nil => .nil
  | .cons hp hr hbody hrest => .cons hp hr hbody.unsized hrest.unsized

theorem ArmsHaveType.unsized {Γ : Context} {ns : List Node} {t u : SimpleType} :
    ArmsHaveType Δ Γ t ns u → ArmsHaveType Δ Γ t (unsizedAll ns) u
  | .nil => .nil
  | .cons hp hbody hrest => .cons hp.unsized hbody.unsized hrest.unsized

end

/-- **A derivation of a tree is one of every tree that differs in marks only**, and in that it
    records no numbers of elements. -/
theorem HasType.of_plain {Γ : Context} {n n' : Node} {t : SimpleType} (h : HasType Δ Γ n t)
    (hplain : n.plain = n'.plain) (hn' : n'.plain = n'.bare) : HasType Δ Γ n' t := by
  have hbare : HasType Δ Γ n.bare t := h.congr _ (Node.bare_mapMarks _ n)
  have hn : HasType Δ Γ n'.bare t := by
    rw [← hn', ← hplain]
    exact hbare.unsized
  exact hn.congr _ (Node.bare_mapMarks _ n').symm

end Marks

end ClosureML
