import ClosureML.Types.Substitution

/-!
# Simple types and what types stand for

The variables of inference are numbers of 32 bits, so a program can use them up. The types of a
typing derivation are built from variables without end: there is always one that nothing mentions.
A *valuation* gives a simple type for each variable of inference, and thereby one for each type.

* `SimpleType` are the types of derivations, `SimpleType.subst` replaces their variables;
* `Ty.interpret` is the simple type that a type stands for under a valuation;
* `Ty.lift` leaves the variables as they are.

Main statements: `Ty.interpret_congr` and `Ty.eq_of_interpret_eq` (what a type stands for and what
its variables stand for determine each other), `Ty.interpret_substitute`, `Ty.subst_interpret`, and
`Ty.interpret_ne_of_occurs` (no type stands for the same as one of its own variables).
-/

namespace ClosureML

/-! ## 1. Simple types -/

/-- A type of a typing derivation. -/
inductive SimpleType where
  | base (base : BaseType)
  | data (name : String)
  | function (parameter result : SimpleType)
  | tuple (elements : List SimpleType)
  | var (n : Nat)

namespace SimpleType

/-- The type of integers. -/
abbrev int : SimpleType := base .int

/-- The type of truth values. -/
abbrev bool : SimpleType := base .bool

/-- The type with one value. -/
abbrev unit : SimpleType := base .unit

mutual

/-- The variables of a type. -/
def vars : SimpleType → List Nat
  | base _ => []
  | data _ => []
  | function p r => p.vars ++ r.vars
  | tuple ts => varsAll ts
  | var n => [n]

/-- The variables of several types. -/
def varsAll : List SimpleType → List Nat
  | [] => []
  | t :: ts => t.vars ++ varsAll ts

end

mutual

/-- The type with every variable replaced. -/
def subst (ρ : Nat → SimpleType) : SimpleType → SimpleType
  | base b => base b
  | data d => data d
  | function p r => function (p.subst ρ) (r.subst ρ)
  | tuple ts => tuple (substAll ρ ts)
  | var n => ρ n

/-- Replacement in several types. -/
def substAll (ρ : Nat → SimpleType) : List SimpleType → List SimpleType
  | [] => []
  | t :: ts => t.subst ρ :: substAll ρ ts

end

mutual

/-- The number of the nodes of a type. -/
def size : SimpleType → Nat
  | base _ => 1
  | data _ => 1
  | function p r => p.size + r.size + 1
  | tuple ts => sizeAll ts + 1
  | var _ => 1

/-- The number of the nodes of several types. -/
def sizeAll : List SimpleType → Nat
  | [] => 0
  | t :: ts => t.size + sizeAll ts

end

/-- Replacement in several types is replacement in each. -/
theorem substAll_eq_map (ρ : Nat → SimpleType) (ts : List SimpleType) :
    substAll ρ ts = ts.map (subst ρ) := by
  induction ts with
  | nil => rfl
  | cons t ts ih => rw [substAll, ih, List.map_cons]

mutual

/-- Replacements that agree on the variables of a type give the same type. -/
theorem subst_congr {ρ ρ' : Nat → SimpleType} :
    ∀ t : SimpleType, (∀ n ∈ t.vars, ρ n = ρ' n) → t.subst ρ = t.subst ρ'
  | base _, _ => rfl
  | data _, _ => rfl
  | function p r, h => by
    rw [subst, subst, subst_congr p fun n hn => h n (by simp [vars, hn]),
      subst_congr r fun n hn => h n (by simp [vars, hn])]
  | tuple ts, h => by
    rw [subst, subst, substAll_congr ts fun n hn => h n (by simpa [vars] using hn)]
  | var n, h => h n (by simp [vars])

theorem substAll_congr {ρ ρ' : Nat → SimpleType} :
    ∀ ts : List SimpleType, (∀ n ∈ varsAll ts, ρ n = ρ' n) → substAll ρ ts = substAll ρ' ts
  | [], _ => rfl
  | t :: ts, h => by
    rw [substAll, substAll, subst_congr t fun n hn => h n (by simp [varsAll, hn]),
      substAll_congr ts fun n hn => h n (by simp [varsAll, hn])]

end

mutual

/-- Replacing each variable by itself changes nothing. -/
theorem subst_var : ∀ t : SimpleType, t.subst var = t
  | base _ => rfl
  | data _ => rfl
  | function p r => by rw [subst, subst_var p, subst_var r]
  | tuple ts => by rw [subst, substAll_var ts]
  | var _ => rfl

theorem substAll_var : ∀ ts : List SimpleType, substAll var ts = ts
  | [] => rfl
  | t :: ts => by rw [substAll, subst_var t, substAll_var ts]

end

mutual

/-- Two replacements in a row are one. -/
theorem subst_subst (ρ ρ' : Nat → SimpleType) :
    ∀ t : SimpleType, (t.subst ρ).subst ρ' = t.subst fun n => (ρ n).subst ρ'
  | base _ => rfl
  | data _ => rfl
  | function p r => by simp only [subst, subst_subst ρ ρ' p, subst_subst ρ ρ' r]
  | tuple ts => by simp only [subst, substAll_substAll ρ ρ' ts]
  | var _ => rfl

theorem substAll_substAll (ρ ρ' : Nat → SimpleType) :
    ∀ ts : List SimpleType, substAll ρ' (substAll ρ ts) = substAll (fun n => (ρ n).subst ρ') ts
  | [] => rfl
  | t :: ts => by simp only [substAll, subst_subst ρ ρ' t, substAll_substAll ρ ρ' ts]

end

end SimpleType

/-! ## 2. What types stand for -/

namespace Ty

open SimpleType (substAll varsAll)

mutual

/-- The simple type that a type stands for under a valuation of its variables. -/
def interpret (θ : TypeVar → SimpleType) : Ty → SimpleType
  | base b => .base b
  | data d => .data d
  | function p r => .function (p.interpret θ) (r.interpret θ)
  | tuple ts => .tuple (interpretAll θ ts)
  | var v => θ v

/-- What several types stand for. -/
def interpretAll (θ : TypeVar → SimpleType) : List Ty → List SimpleType
  | [] => []
  | t :: ts => t.interpret θ :: interpretAll θ ts

end

/-- The simple type with the same variables. -/
def lift (t : Ty) : SimpleType := t.interpret fun v => .var v.toNat

/-- Several types stand for what each of them stands for. -/
theorem interpretAll_eq_map (θ : TypeVar → SimpleType) (ts : List Ty) :
    interpretAll θ ts = ts.map (interpret θ) := by
  induction ts with
  | nil => rfl
  | cons t ts ih => rw [interpretAll, ih, List.map_cons]

mutual

/-- **What a type stands for depends on its own variables only.** -/
theorem interpret_congr {θ θ' : TypeVar → SimpleType} :
    ∀ t : Ty, (∀ v ∈ t.occurrences, θ v = θ' v) → t.interpret θ = t.interpret θ'
  | base _, _ => rfl
  | data _, _ => rfl
  | function p r, h => by
    rw [interpret, interpret, interpret_congr p fun v hv => h v (by simp [occurrences, hv]),
      interpret_congr r fun v hv => h v (by simp [occurrences, hv])]
  | tuple ts, h => by
    rw [interpret, interpret, interpretAll_congr ts fun v hv =>
      h v (by simpa [occurrences] using hv)]
  | var v, h => h v (by simp [occurrences])

theorem interpretAll_congr {θ θ' : TypeVar → SimpleType} :
    ∀ ts : List Ty, (∀ v ∈ occurrencesAll ts, θ v = θ' v) →
      interpretAll θ ts = interpretAll θ' ts
  | [], _ => rfl
  | t :: ts, h => by
    rw [interpretAll, interpretAll,
      interpret_congr t fun v hv => h v (by simp [occurrencesAll, hv]),
      interpretAll_congr ts fun v hv => h v (by simp [occurrencesAll, hv])]

end

mutual

/-- **What a type stands for determines what its variables stand for.** -/
theorem eq_of_interpret_eq {θ θ' : TypeVar → SimpleType} {v : TypeVar} :
    ∀ t : Ty, t.interpret θ = t.interpret θ' → v ∈ t.occurrences → θ v = θ' v
  | base _, _, hv => by simp [occurrences] at hv
  | data _, _, hv => by simp [occurrences] at hv
  | function p r, h, hv => by
    obtain ⟨hp, hr⟩ := SimpleType.function.inj h
    rcases List.mem_append.1 hv with hv | hv
    · exact eq_of_interpret_eq p hp hv
    · exact eq_of_interpret_eq r hr hv
  | tuple ts, h, hv => eq_of_interpretAll_eq ts (SimpleType.tuple.inj h) hv
  | var w, h, hv => by
    rw [List.mem_singleton.1 hv]
    exact h

theorem eq_of_interpretAll_eq {θ θ' : TypeVar → SimpleType} {v : TypeVar} :
    ∀ ts : List Ty, interpretAll θ ts = interpretAll θ' ts → v ∈ occurrencesAll ts → θ v = θ' v
  | [], _, hv => by simp [occurrencesAll] at hv
  | t :: ts, h, hv => by
    obtain ⟨ht, hts⟩ := List.cons.inj h
    rcases List.mem_append.1 hv with hv | hv
    · exact eq_of_interpret_eq t ht hv
    · exact eq_of_interpretAll_eq ts hts hv

end

/-- The valuation in which a variable that `σ` knows stands for what `σ` gives for it. -/
def after (θ : TypeVar → SimpleType) (σ : TypeVar → Option Ty) (v : TypeVar) : SimpleType :=
  ((σ v).getD (var v)).interpret θ

mutual

/-- **Substitution first and then a valuation** is one valuation. -/
theorem interpret_substitute (θ : TypeVar → SimpleType) (σ : TypeVar → Option Ty) :
    ∀ t : Ty, (t.substitute σ).interpret θ = t.interpret (after θ σ)
  | base _ => rfl
  | data _ => rfl
  | function p r => by
    simp only [substitute, interpret, interpret_substitute θ σ p, interpret_substitute θ σ r]
  | tuple ts => by simp only [substitute, interpret, interpretAll_substituteAll θ σ ts]
  | var _ => rfl

theorem interpretAll_substituteAll (θ : TypeVar → SimpleType) (σ : TypeVar → Option Ty) :
    ∀ ts : List Ty, interpretAll θ (substituteAll σ ts) = interpretAll (after θ σ) ts
  | [] => rfl
  | t :: ts => by
    simp only [substituteAll, interpretAll, interpret_substitute θ σ t,
      interpretAll_substituteAll θ σ ts]

end

mutual

/-- **A valuation first and then a replacement** is one valuation. -/
theorem subst_interpret (θ : TypeVar → SimpleType) (ρ : Nat → SimpleType) :
    ∀ t : Ty, (t.interpret θ).subst ρ = t.interpret fun v => (θ v).subst ρ
  | base _ => rfl
  | data _ => rfl
  | function p r => by
    simp only [interpret, SimpleType.subst, subst_interpret θ ρ p, subst_interpret θ ρ r]
  | tuple ts => by simp only [interpret, SimpleType.subst, substAll_interpretAll θ ρ ts]
  | var _ => rfl

theorem substAll_interpretAll (θ : TypeVar → SimpleType) (ρ : Nat → SimpleType) :
    ∀ ts : List Ty, substAll ρ (interpretAll θ ts) = interpretAll (fun v => (θ v).subst ρ) ts
  | [] => rfl
  | t :: ts => by
    simp only [interpretAll, substAll, subst_interpret θ ρ t, substAll_interpretAll θ ρ ts]

end

mutual

/-- The variables of what a type stands for come from what its variables stand for. -/
theorem mem_vars_interpret {θ : TypeVar → SimpleType} {n : Nat} :
    ∀ t : Ty, n ∈ (t.interpret θ).vars → ∃ v ∈ t.occurrences, n ∈ (θ v).vars
  | base _, h => by simp [interpret, SimpleType.vars] at h
  | data _, h => by simp [interpret, SimpleType.vars] at h
  | function p r, h => by
    rw [interpret, SimpleType.vars, List.mem_append] at h
    rcases h with h | h
    · obtain ⟨v, hv, hn⟩ := mem_vars_interpret p h
      exact ⟨v, by simp [occurrences, hv], hn⟩
    · obtain ⟨v, hv, hn⟩ := mem_vars_interpret r h
      exact ⟨v, by simp [occurrences, hv], hn⟩
  | tuple ts, h => by
    rw [interpret, SimpleType.vars] at h
    obtain ⟨v, hv, hn⟩ := mem_varsAll_interpretAll ts h
    exact ⟨v, by simpa [occurrences] using hv, hn⟩
  | var v, h => ⟨v, by simp [occurrences], h⟩

theorem mem_varsAll_interpretAll {θ : TypeVar → SimpleType} {n : Nat} :
    ∀ ts : List Ty, n ∈ varsAll (interpretAll θ ts) → ∃ v ∈ occurrencesAll ts, n ∈ (θ v).vars
  | [], h => by simp [interpretAll, varsAll] at h
  | t :: ts, h => by
    rw [interpretAll, varsAll, List.mem_append] at h
    rcases h with h | h
    · obtain ⟨v, hv, hn⟩ := mem_vars_interpret t h
      exact ⟨v, by simp [occurrencesAll, hv], hn⟩
    · obtain ⟨v, hv, hn⟩ := mem_varsAll_interpretAll ts h
      exact ⟨v, by simp [occurrencesAll, hv], hn⟩

end

mutual

/-- What a variable stands for is not larger than what a type with it stands for. -/
theorem size_le_of_occurs {θ : TypeVar → SimpleType} {v : TypeVar} :
    ∀ t : Ty, v ∈ t.occurrences → (θ v).size ≤ (t.interpret θ).size
  | base _, h => by simp [occurrences] at h
  | data _, h => by simp [occurrences] at h
  | function p r, h => by
    rw [occurrences, List.mem_append] at h
    rw [interpret, SimpleType.size]
    rcases h with h | h
    · have := size_le_of_occurs (θ := θ) p h
      omega
    · have := size_le_of_occurs (θ := θ) r h
      omega
  | tuple ts, h => by
    have := sizeAll_le_of_occurs (θ := θ) ts (by simpa [occurrences] using h)
    rw [interpret, SimpleType.size]
    omega
  | var w, h => by
    rw [List.mem_singleton.1 h]
    exact Nat.le_refl _

theorem sizeAll_le_of_occurs {θ : TypeVar → SimpleType} {v : TypeVar} :
    ∀ ts : List Ty, v ∈ occurrencesAll ts →
      (θ v).size ≤ SimpleType.sizeAll (interpretAll θ ts)
  | [], h => by simp [occurrencesAll] at h
  | t :: ts, h => by
    rw [occurrencesAll, List.mem_append] at h
    rw [interpretAll, SimpleType.sizeAll]
    rcases h with h | h
    · have := size_le_of_occurs (θ := θ) t h
      omega
    · have := sizeAll_le_of_occurs (θ := θ) ts h
      omega

end

/-- **No type stands for the same as one of its own variables**, except the variable alone. -/
theorem interpret_ne_of_occurs {θ : TypeVar → SimpleType} {v : TypeVar} {t : Ty}
    (h : v ∈ t.occurrences) (hv : t ≠ var v) : θ v ≠ t.interpret θ := by
  intro heq
  have hsize : (θ v).size = (t.interpret θ).size := by rw [heq]
  cases t with
  | base _ => simp [occurrences] at h
  | data _ => simp [occurrences] at h
  | var w => exact hv (by rw [List.mem_singleton.1 h])
  | function p r =>
    rw [occurrences, List.mem_append] at h
    rw [interpret, SimpleType.size] at hsize
    rcases h with h | h
    · have := size_le_of_occurs (θ := θ) p h
      omega
    · have := size_le_of_occurs (θ := θ) r h
      omega
  | tuple ts =>
    have := sizeAll_le_of_occurs (θ := θ) ts (by simpa [occurrences] using h)
    rw [interpret, SimpleType.size] at hsize
    omega

end Ty

/-! ## 3. Ascriptions -/

/-- The simple type that an ascription stands for. -/
def TypeExpr.simple (e : TypeExpr) : SimpleType := e.toTy.lift

/-- An ascription stands for the same type under every valuation. -/
theorem TypeExpr.interpret_toTy (e : TypeExpr) (θ : TypeVar → SimpleType) :
    e.toTy.interpret θ = e.simple :=
  Ty.interpret_congr _ fun v hv => by simp [TypeExpr.occurrences_toTy] at hv

mutual

/-- Ascriptions for the same type are the same. -/
theorem TypeExpr.toTy_injective : ∀ e e' : TypeExpr, e.toTy = e'.toTy → e = e'
  | .base _, e', h => by cases e' <;> simp_all [toTy]
  | .named _, e', h => by cases e' <;> simp_all [toTy]
  | .function p r, e', h => by
    cases e' with
    | function p' r' =>
      obtain ⟨hp, hr⟩ := Ty.function.inj h
      rw [toTy_injective p p' hp, toTy_injective r r' hr]
    | _ => cases h
  | .tuple es, e', h => by
    cases e' with
    | tuple es' => rw [toTys_injective es es' (Ty.tuple.inj h)]
    | _ => cases h

theorem TypeExpr.toTys_injective : ∀ es es' : List TypeExpr, toTys es = toTys es' → es = es'
  | [], es', h => by cases es' <;> simp_all [toTys]
  | e :: es, es', h => by
    cases es' with
    | nil => cases h
    | cons e' es' =>
      obtain ⟨he, hes⟩ := List.cons.inj h
      rw [toTy_injective e e' he, toTys_injective es es' hes]

end

/-- The types of several ascriptions are the types of each. -/
theorem TypeExpr.toTys_eq_map (es : List TypeExpr) : toTys es = es.map toTy := by
  induction es with
  | nil => rfl
  | cons e es ih => rw [toTys, ih, List.map_cons]

end ClosureML
