import ClosureML.Proofs.Names.Occurrences
import ClosureML.Proofs.Semantics.LoweredTree

/-!
# Lowering adds names of its own only

Lowering of matches puts the bodies of arms behind the functions of their patterns, and erasure of
tuples puts elements behind the names that they are bound to. Whatever the tree is, no name and no
reference in it gets lost or is there twice on the way, and what is added has names that were taken
from the supply.

* `occurrences_function` and the like: the occurrences in the nodes that lowering builds.

Main statements: `patternFunction_adds`, `lowerMatchNode_adds` and `eraseNode_adds` (what the steps
add), and `Node.lower_adds` (what the whole of lowering adds).
-/

namespace ClosureML

open Lowering Node Occurrence

/-! ## 1. What lowering is made of -/

section Parts

variable {p : Position} {x : String} {n body value : Node}

@[simp] theorem occurrences_literal {m : Mark} {v : Literal} :
    (Node.literal m v).occurrences = [] := rfl

@[simp] theorem occurrences_builtin {m : Mark} {b : Builtin} :
    (Node.builtin m b).occurrences = [] := rfl

@[simp] theorem occurrences_integer {k : Int} : (integer p k).occurrences = [] := rfl

@[simp] theorem occurrences_reference : (Lowering.reference p x).occurrences = [used p x] := rfl

@[simp] theorem occurrences_component {index arity : Nat} :
    (component p x index arity).occurrences = [used p x] := rfl

@[simp] theorem occurrences_tuple {m : Mark} {es : List Node} :
    (Node.tuple m es).occurrences = es.flatMap occurrences := occurrences_of_none rfl

@[simp] theorem occurrences_pair {first second : Node} :
    (pair p first second).occurrences = first.occurrences ++ second.occurrences :=
  (occurrences_eq _).trans (congrArg (first.occurrences ++ ·) (List.append_nil _))

@[simp] theorem occurrences_apply {f a : Node} :
    (apply p f a).occurrences = f.occurrences ++ a.occurrences :=
  (occurrences_eq _).trans (congrArg (f.occurrences ++ ·) (List.append_nil _))

@[simp] theorem occurrences_equals {l r : Node} :
    (equals p l r).occurrences = l.occurrences ++ r.occurrences :=
  (occurrences_eq _).trans (congrArg (l.occurrences ++ ·) (List.append_nil _))

@[simp] theorem occurrences_function :
    (function p x body).occurrences = given x :: body.occurrences :=
  (occurrences_eq _).trans (congrArg (given x :: ·) (List.append_nil _))

@[simp] theorem occurrences_bind :
    (Lowering.bind p x value body).occurrences =
      given x :: (value.occurrences ++ body.occurrences) :=
  (occurrences_eq _).trans (congrArg (given x :: value.occurrences ++ ·) (List.append_nil _))

@[simp] theorem occurrences_choose {c t e : Node} :
    (choose p c t e).occurrences = c.occurrences ++ (t.occurrences ++ e.occurrences) :=
  (occurrences_eq _).trans
    (congrArg (fun os => c.occurrences ++ (t.occurrences ++ os)) (List.append_nil _))

@[simp] theorem occurrences_success : (success p n).occurrences = n.occurrences := by simp [success]

@[simp] theorem occurrences_failure : (Lowering.failure p).occurrences = [] := by
  simp [Lowering.failure]

theorem occurrences_references (xs : List String) :
    (xs.map (Lowering.reference p)).flatMap occurrences = xs.map (used p) := by
  induction xs with
  | nil => rfl
  | cons x xs ih => exact congrArg (used p x :: ·) ih

theorem occurrences_functions (xs : List String) :
    (functions p xs body).occurrences = xs.map given ++ body.occurrences := by
  induction xs with
  | nil => rfl
  | cons x xs ih => exact occurrences_function.trans (congrArg (given x :: ·) ih)

/-- Values that are bound one inside the other. -/
theorem occurrences_bindings (bindings : List (String × Node)) :
    (bindings.foldr (fun (x, value) body => Lowering.bind p x value body) body).occurrences =
      bindings.flatMap (fun b => given b.1 :: b.2.occurrences) ++ body.occurrences := by
  induction bindings with
  | nil => rfl
  | cons b bindings ih => simp [ih]

/-- The outcome of the first attempt that succeeds refers to the outcome of each attempt twice. -/
theorem occurrences_firstSuccess (tried : List (String × Node)) :
    (firstSuccess p tried).occurrences.Perm
      (tried.flatMap (fun t => given t.1 :: t.2.occurrences) ++
        (tried.flatMap fun t => [t.1, t.1]).map (used p)) := by
  induction tried with
  | nil => simp [firstSuccess]
  | cons t tried ih =>
    refine List.perm_iff_count.2 fun o => ?_
    have hcount := List.perm_iff_count.1 ih o
    simp only [firstSuccess, occurrences_bind, occurrences_choose, occurrences_equals,
      occurrences_component, occurrences_integer, List.flatMap_cons, List.map_cons,
      List.cons_append, List.nil_append, List.append_nil, List.count_append,
      List.count_cons] at hcount ⊢
    omega

/-- The chain of tests for the elements of a tuple binds some of the names for the outcomes, and
    refers to them and to the tuple. -/
theorem occurrences_applyInTurn (argument : String) (arity : Nat) : ∀ (f : Node) (step : Nat)
    (names : List String), ∃ bound us : List String, bound.Sublist names ∧
      us ⊆ argument :: names ∧ (applyInTurn p argument arity f step names).occurrences.Perm
        (f.occurrences ++ bound.map given ++ us.map (used p))
  | f, _, [] => ⟨[], [], .refl _, List.nil_subset _, by simp [applyInTurn]⟩
  -- the name for the last outcome was taken from the supply, but is given to nothing
  | f, _, [r] => ⟨[], [argument], List.nil_sublist _, by simp, by simp [applyInTurn]⟩
  | f, step, r :: r' :: rest => by
    obtain ⟨bound, us, hbound, hus, hperm⟩ :=
      occurrences_applyInTurn argument arity (component p r 1 2) (step + 1) (r' :: rest)
    refine ⟨r :: bound, argument :: r :: r :: us, hbound.cons_cons r, ?_, ?_⟩
    · intro x hx
      simp only [List.mem_cons] at hx ⊢
      rcases hx with rfl | rfl | rfl | hx
      · exact .inl rfl
      · exact .inr (.inl rfl)
      · exact .inr (.inl rfl)
      · simpa [or_left_comm] using Or.inr (a := x = r) (List.mem_cons.1 (hus hx))
    · refine List.perm_iff_count.2 fun o => ?_
      have hcount := List.perm_iff_count.1 hperm o
      simp only [applyInTurn, occurrences_bind, occurrences_apply, occurrences_choose,
        occurrences_equals, occurrences_component, occurrences_integer, occurrences_failure,
        List.map_cons, List.cons_append, List.nil_append, List.append_nil, List.count_append,
        List.count_cons, List.count_nil] at hcount ⊢
      omega

end Parts

/-! ## 2. Patterns -/

section Patterns

variable {p : Position} {s s' : Supply} {result f : Node}

/-- The function of several patterns, when it is known what chaining them adds. -/
theorem tupleFunction_adds {ps : List Node} (h : Runs (tupleFunction p result ps) s f s')
    (hchained : ∀ {s₁ s₂ : Supply} {chained : Node},
      Runs (chainedFunction p result ps) s₁ chained s₂ →
        AddsNames s₁ s₂ (ps.flatMap occurrences ++ result.occurrences) chained.occurrences) :
    AddsNames s s' (ps.flatMap occurrences ++ result.occurrences) f.occurrences := by
  simp only [tupleFunction, runs_bind] at h
  obtain ⟨x, s₁, hx, h⟩ := h
  obtain ⟨hforeign, hx⟩ := freshName_adds (by decide) hx
  split at h
  · next hempty =>
    obtain ⟨rfl, rfl⟩ := runs_pure.1 h
    obtain rfl := List.isEmpty_iff.1 hempty
    simpa using hx.append (.refl s₁ result.occurrences)
  · simp only [runs_bind, runs_pure] at h
    obtain ⟨chained, s₂, hrun, chain, s₃, hchain, steps, s₄, hsteps, rfl, rfl⟩ := h
    obtain ⟨hforeign', hchain⟩ := freshName_adds (by decide) hchain
    obtain ⟨hforeign'', hsteps⟩ := freshNames_adds (by decide) hsteps
    obtain ⟨bound, us, hbound, hus, hperm⟩ :=
      occurrences_applyInTurn (p := p) x ps.length (Lowering.reference p chain) 0 steps
    have hadds := hx.append ((hchained hrun).append (hchain.append (hsteps bound hbound)))
    have hforeigns : ∀ y ∈ chain :: us, ¬ IsProgramName y := by
      refine List.forall_mem_cons.2 ⟨hforeign', fun y hy => ?_⟩
      exact (List.mem_cons.1 (hus hy)).elim (· ▸ hforeign) (hforeign'' y)
    refine (hadds.referring hforeigns (p := p) (List.perm_iff_count.2 fun o => ?_)).perm
      (by simp) (.refl _)
    have hcount := List.perm_iff_count.1 hperm o
    simp only [occurrences_function, occurrences_bind, occurrences_reference, List.map_cons,
      List.cons_append, List.nil_append, List.count_append, List.count_cons] at hcount ⊢
    omega

mutual

/-- **The function of a pattern** has the names of the pattern and those of the result. -/
theorem patternFunction_adds : ∀ {pat result f : Node} {s s' : Supply},
    Runs (patternFunction p result pat) s f s' →
      AddsNames s s' (pat.occurrences ++ result.occurrences) f.occurrences
  | .patternBinder m x, result, _, s, _, h => by
    rw [patternFunction] at h
    obtain ⟨rfl, rfl⟩ := runs_pure.1 h
    exact (AddsNames.refl s (given x :: result.occurrences)).perm (.refl _) (by simp)
  | .patternLiteral m v, result, _, s, s', h => by
    simp only [patternFunction, runs_bind, runs_pure] at h
    obtain ⟨x, s₁, hx, rfl, rfl⟩ := h
    obtain ⟨hforeign, hx⟩ := freshName_adds (by decide) hx
    refine (hx.append (.refl s₁ result.occurrences)).referring (p := p)
      (List.forall_mem_singleton.2 hforeign) (List.perm_iff_count.2 fun o => ?_)
    simp [List.count_cons]
  | .patternTuple m ps, result, f, s, s', h => by
    rw [patternFunction] at h
    refine (tupleFunction_adds h chainedFunction_adds).perm ?_ (.refl _)
    rw [occurrences_of_none rfl]
    rfl
  | .patternConstructor m c ps none, _, _, _, _, h => by
    simp [patternFunction, Lowering.fail] at h
  | .patternConstructor m c ps (some tag), result, _, s, _, h => by
    simp only [patternFunction, runs_bind, runs_pure] at h
    obtain ⟨x, s₁, hx, payload, s₂, hrun, rfl, rfl⟩ := h
    obtain ⟨hforeign, hx⟩ := freshName_adds (by decide) hx
    have hpayload := tupleFunction_adds hrun chainedFunction_adds
    have hforeigns : ∀ y ∈ [x, x], ¬ IsProgramName y := by simp [hforeign]
    refine ((hx.append hpayload).referring hforeigns (p := p)
      (List.perm_iff_count.2 fun o => ?_)).perm ?_ (.refl _)
    · simp only [occurrences_function, occurrences_choose, occurrences_equals,
        occurrences_component, occurrences_integer, occurrences_apply, occurrences_failure,
        List.map_cons, List.map_nil, List.cons_append, List.nil_append, List.append_nil,
        List.count_append, List.count_cons]
      omega
    · rw [occurrences_of_none rfl]
      rfl
  | .top .., _, _, _, _, h | .literal .., _, _, _, _, h | .reference .., _, _, _, _, h
  | .builtin .., _, _, _, _, h | .lambda .., _, _, _, _, h | .application .., _, _, _, _, h
  | .letIn .., _, _, _, _, h | .letRec .., _, _, _, _, h | .letRecArm .., _, _, _, _, h
  | .conditional .., _, _, _, _, h | .binary .., _, _, _, _, h | .unary .., _, _, _, _, h
  | .sequence .., _, _, _, _, h | .tuple .., _, _, _, _, h | .projection .., _, _, _, _, h
  | .matchWith .., _, _, _, _, h | .matchArm .., _, _, _, _, h | .dataType .., _, _, _, _, h
  | .dataConstructor .., _, _, _, _, h | .indexed .., _, _, _, _, h => by
    simp [patternFunction, Lowering.fail] at h

theorem chainedFunction_adds : ∀ {ps : List Node} {result f : Node} {s s' : Supply},
    Runs (chainedFunction p result ps) s f s' →
      AddsNames s s' (ps.flatMap occurrences ++ result.occurrences) f.occurrences
  | [], result, _, s, _, h => by
    rw [chainedFunction] at h
    obtain ⟨rfl, rfl⟩ := runs_pure.1 h
    exact .refl s _
  | q :: ps, result, f, s, s', h => by
    simp only [chainedFunction, runs_bind] at h
    obtain ⟨inner, s₁, hinner, h⟩ := h
    have hrest := (AddsNames.refl s q.occurrences).append (chainedFunction_adds hinner)
    exact (hrest.trans (patternFunction_adds h)).perm (by simp) (.refl _)

end

end Patterns

/-! ## 3. Matches and data types -/

section Matches

variable {p : Position} {s s' : Supply}

theorem attempts_adds {scrutinee : String} (hscrutinee : ¬ IsProgramName scrutinee) :
    ∀ {arms : List Node} {s s' : Supply} {tried : List (String × Node)},
      Runs (attempts p scrutinee arms) s tried s' →
        (∀ t ∈ tried, ¬ IsProgramName t.1) ∧
          AddsNames s s' (arms.flatMap occurrences)
            (tried.flatMap fun t => given t.1 :: t.2.occurrences)
  | [], s, _, _, h => by
    obtain ⟨rfl, rfl⟩ := runs_pure.1 h
    exact ⟨nofun, .refl s []⟩
  | .matchArm m q body :: rest, s, _, _, h => by
    simp only [attempts, runs_bind, runs_pure] at h
    obtain ⟨v, s₁, hv, matcher, s₂, hmatcher, f, s₃, hf, tried, s₄, htried, rfl, rfl⟩ := h
    obtain ⟨hforeign, hv⟩ := freshName_adds (by decide) hv
    obtain ⟨hforeign', hmatcher⟩ := freshName_adds (by decide) hmatcher
    obtain ⟨hforeigns, hrest⟩ := attempts_adds hscrutinee htried
    refine ⟨List.forall_mem_cons.2 ⟨hforeign, hforeigns⟩, ?_⟩
    have hused : ∀ y ∈ [matcher, scrutinee], ¬ IsProgramName y := by simp [hforeign', hscrutinee]
    have harm : (Node.matchArm m q body).occurrences = q.occurrences ++ body.occurrences :=
      (occurrences_eq _).trans (congrArg (q.occurrences ++ ·) (List.append_nil _))
    have hadds := hv.append (hmatcher.append ((patternFunction_adds hf).append hrest))
    refine (hadds.referring hused (p := p) (List.perm_iff_count.2 fun o => ?_)).perm ?_ (.refl _)
    · simp only [List.flatMap_cons, occurrences_bind, occurrences_apply, occurrences_reference,
        List.map_cons, List.map_nil, List.cons_append, List.nil_append, List.count_append,
        List.count_cons]
      omega
    · simp [harm]
  | .top .. :: _, _, _, _, h | .literal .. :: _, _, _, _, h | .reference .. :: _, _, _, _, h
  | .builtin .. :: _, _, _, _, h | .lambda .. :: _, _, _, _, h | .application .. :: _, _, _, _, h
  | .letIn .. :: _, _, _, _, h | .letRec .. :: _, _, _, _, h | .letRecArm .. :: _, _, _, _, h
  | .conditional .. :: _, _, _, _, h | .binary .. :: _, _, _, _, h | .unary .. :: _, _, _, _, h
  | .sequence .. :: _, _, _, _, h | .tuple .. :: _, _, _, _, h | .projection .. :: _, _, _, _, h
  | .matchWith .. :: _, _, _, _, h | .dataType .. :: _, _, _, _, h
  | .dataConstructor .. :: _, _, _, _, h | .patternBinder .. :: _, _, _, _, h
  | .patternTuple .. :: _, _, _, _, h | .patternLiteral .. :: _, _, _, _, h
  | .patternConstructor .. :: _, _, _, _, h | .indexed .. :: _, _, _, _, h => absurd h runs_throw

/-- **A `match`** keeps the names of the scrutinee and of the arms. -/
theorem lowerMatch_adds {scrutinee n' : Node} {arms : List Node}
    (h : Runs (lowerMatch p scrutinee arms) s n' s') :
    AddsNames s s' (scrutinee.occurrences ++ arms.flatMap occurrences) n'.occurrences := by
  simp only [lowerMatch, runs_bind, runs_pure] at h
  obtain ⟨e, s₁, he, tried, s₂, htried, rfl, rfl⟩ := h
  obtain ⟨hforeign, he⟩ := freshName_adds (by decide) he
  obtain ⟨hforeigns, htried⟩ := attempts_adds hforeign htried
  have hused : ∀ y ∈ tried.flatMap fun t => [t.1, t.1], ¬ IsProgramName y := by
    intro y hy
    obtain ⟨t, ht, hy⟩ := List.mem_flatMap.1 hy
    have hyt : y = t.1 := by simpa using hy
    exact hyt ▸ hforeigns t ht
  have hadds := (he.append (.refl s₁ scrutinee.occurrences)).append htried
  refine hadds.referring hused (p := p) (List.perm_iff_count.2 fun o => ?_)
  have hcount := List.perm_iff_count.1 (occurrences_firstSuccess (p := p) tried) o
  simp only [occurrences_bind, List.cons_append, List.nil_append, List.count_append,
    List.count_cons] at hcount ⊢
  omega

theorem constructorValue_adds {tag : Nat} {parameters : List TypeExpr} {value : Node}
    (h : Runs (constructorValue p tag parameters) s value s') :
    AddsNames s s' [] value.occurrences := by
  unfold constructorValue at h
  split at h
  · obtain ⟨rfl, rfl⟩ := runs_pure.1 h
    exact .refl s []
  · simp only [runs_bind, runs_pure] at h
    obtain ⟨xs, s₁, hxs, rfl, rfl⟩ := h
    obtain ⟨hforeign, hxs⟩ := freshNames_adds (by decide) hxs
    refine (hxs xs (.refl xs)).referring hforeign (p := p) ?_
    simp [occurrences_functions, occurrences_references]

theorem constructorValues_adds : ∀ {cs : List Node} {s s' : Supply} {values : List (String × Node)},
    Runs (constructorValues p cs) s values s' →
      AddsNames s s' (cs.flatMap occurrences) (values.flatMap fun v => given v.1 :: v.2.occurrences)
  | [], s, _, _, h => by
    obtain ⟨rfl, rfl⟩ := runs_pure.1 h
    exact .refl s []
  | .dataConstructor m c parameters none :: rest, _, _, _, h => absurd h runs_throw
  | .dataConstructor m c parameters (some tag) :: rest, s, _, _, h => by
    simp only [constructorValues, runs_bind, runs_pure] at h
    obtain ⟨value, s₁, hvalue, values, s₂, hvalues, rfl, rfl⟩ := h
    have hhere := (AddsNames.refl s [given c]).append (constructorValue_adds hvalue)
    exact hhere.append (constructorValues_adds hvalues)
  | .top .. :: _, _, _, _, h | .literal .. :: _, _, _, _, h | .reference .. :: _, _, _, _, h
  | .builtin .. :: _, _, _, _, h | .lambda .. :: _, _, _, _, h | .application .. :: _, _, _, _, h
  | .letIn .. :: _, _, _, _, h | .letRec .. :: _, _, _, _, h | .letRecArm .. :: _, _, _, _, h
  | .conditional .. :: _, _, _, _, h | .binary .. :: _, _, _, _, h | .unary .. :: _, _, _, _, h
  | .sequence .. :: _, _, _, _, h | .tuple .. :: _, _, _, _, h | .projection .. :: _, _, _, _, h
  | .matchWith .. :: _, _, _, _, h | .matchArm .. :: _, _, _, _, h | .dataType .. :: _, _, _, _, h
  | .patternBinder .. :: _, _, _, _, h | .patternTuple .. :: _, _, _, _, h
  | .patternLiteral .. :: _, _, _, _, h | .patternConstructor .. :: _, _, _, _, h
  | .indexed .. :: _, _, _, _, h => absurd h runs_throw

/-- **The declaration of a data type** keeps the names of the constructors and of the body. -/
theorem lowerDataType_adds {constructors : List Node} {body n' : Node}
    (h : Runs (lowerDataType p constructors body) s n' s') :
    AddsNames s s' (constructors.flatMap occurrences ++ body.occurrences) n'.occurrences := by
  simp only [lowerDataType, runs_bind, runs_pure] at h
  obtain ⟨values, s₁, hvalues, rfl, rfl⟩ := h
  exact ((constructorValues_adds hvalues).append (.refl s₁ body.occurrences)).perm (.refl _)
    (.of_eq (occurrences_bindings values))

theorem lowerMatchNode_adds {n n' : Node} (h : Runs (lowerMatchNode n) s n' s') :
    AddsTree s s' n n' := by
  cases n with
  | dataType m d cs body =>
    refine (lowerDataType_adds h).perm ?_ (.refl _)
    rw [occurrences_of_none rfl]
    simp [children]
  | matchWith m e arms =>
    refine (lowerMatch_adds h).perm ?_ (.refl _)
    rw [occurrences_of_none rfl]
    simp [children]
  | _ =>
    obtain ⟨rfl, rfl⟩ := runs_pure.1 h
    exact .refl s _

end Matches

/-! ## 4. Tuples -/

section Tuples

variable {p : Position} {s s' : Supply}

theorem occurrences_zip {ts : List String} {es : List Node} (h : ts.length = es.length) :
    ((ts.zip es).flatMap fun b => given b.1 :: b.2.occurrences).Perm
      (ts.map given ++ es.flatMap occurrences) := by
  induction ts generalizing es with
  | nil =>
    obtain rfl := List.eq_nil_of_length_eq_zero h.symm
    exact .refl _
  | cons t ts ih =>
    cases es with
    | nil => cases h
    | cons e es =>
      refine List.perm_iff_count.2 fun o => ?_
      have hcount := List.perm_iff_count.1 (ih (Nat.succ.inj h)) o
      simp only [List.zip_cons_cons, List.flatMap_cons, List.map_cons, List.cons_append,
        List.count_append, List.count_cons] at hcount ⊢
      omega

theorem occurrences_applications (ts : List String) (f : Node) :
    (ts.foldl (fun f t => apply p f (Lowering.reference p t)) f).occurrences =
      f.occurrences ++ ts.map (used p) := by
  induction ts generalizing f with
  | nil => simp
  | cons t ts ih => simp [ih]

/-- **A tuple** keeps the names of its elements. -/
theorem eraseTuple_adds {es : List Node} {n' : Node} (h : Runs (eraseTuple p es) s n' s') :
    AddsNames s s' (es.flatMap occurrences) n'.occurrences := by
  unfold eraseTuple at h
  split at h
  · next hempty =>
    obtain ⟨rfl, rfl⟩ := runs_pure.1 h
    obtain rfl := List.isEmpty_iff.1 hempty
    exact .refl s []
  · simp only [runs_bind, runs_pure] at h
    obtain ⟨ts, s₁, hts, x, s₂, hx, rfl, rfl⟩ := h
    have hlength : ts.length = es.length := by
      rw [(runs_freshNames hts).1, length_generatedNames]
    obtain ⟨hforeigns, hts⟩ := freshNames_adds (by decide) hts
    obtain ⟨hforeign, hx⟩ := freshName_adds (by decide) hx
    have hadds := (hts ts (.refl ts)).append (hx.append (.refl s₂ (es.flatMap occurrences)))
    refine hadds.referring (p := p) (List.forall_mem_cons.2 ⟨hforeign, hforeigns⟩)
      (List.perm_iff_count.2 fun o => ?_)
    have hcount := List.perm_iff_count.1 (occurrences_zip hlength) o
    rw [occurrences_bindings]
    simp only [occurrences_function, occurrences_applications, occurrences_reference,
      List.map_cons, List.cons_append, List.nil_append, List.count_append,
      List.count_cons] at hcount ⊢
    omega

theorem selector_adds {index arity : Nat} {n' : Node} (h : Runs (selector p index arity) s n' s') :
    AddsNames s s' [] n'.occurrences := by
  unfold selector at h
  simp only [runs_bind] at h
  obtain ⟨xs, s₁, hxs, h⟩ := h
  obtain ⟨hforeign, hxs⟩ := freshNames_adds (by decide) hxs
  split at h
  · next x hx =>
    obtain ⟨rfl, rfl⟩ := runs_pure.1 h
    refine (hxs xs (.refl xs)).referring (p := p)
      (List.forall_mem_singleton.2 (hforeign x (List.mem_of_getElem? hx))) ?_
    rw [occurrences_functions]
    exact .refl _
  · exact absurd h runs_throw

theorem eraseNode_adds {n n' : Node} (h : Runs (eraseNode n) s n' s') : AddsTree s s' n n' := by
  cases n with
  | tuple m es => exact (eraseTuple_adds h).perm (.of_eq occurrences_tuple) (.refl _)
  | projection m index arity e =>
    cases arity with
    | none => exact absurd h runs_throw
    | some arity =>
      simp only [eraseNode, eraseProjection, runs_bind, runs_pure] at h
      obtain ⟨selected, s₁, hselected, rfl, rfl⟩ := h
      refine ((AddsNames.refl s e.occurrences).append (selector_adds hselected)).perm ?_
        (.of_eq occurrences_apply)
      rw [occurrences_of_none rfl]
      simp [children]
  | _ =>
    obtain ⟨rfl, rfl⟩ := runs_pure.1 h
    exact .refl s _

end Tuples

/-- **Lowering of a tree** adds names of its own, and nothing else. -/
theorem Node.lower_adds {n lowered : Node} (h : n.lower = .ok lowered) :
    ∃ s, AddsTree .empty s n lowered := by
  obtain ⟨matched, s, s', hmatched, herased⟩ := lower_eq_ok.1 h
  exact ⟨s',
    (rebuild_adds lowerMatchNode_adds hmatched).trans (rebuild_adds eraseNode_adds herased)⟩

end ClosureML
