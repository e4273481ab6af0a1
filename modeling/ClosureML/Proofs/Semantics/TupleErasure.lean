import ClosureML.Lowering.Tuple
import ClosureML.Proofs.Semantics.Lowered

/-!
# Erasure of tuples keeps what a tree does

The tree with its tuples erased does what the tree with tuples does. Where the one has a tuple, the
other has a function that hands the components, one after the other, to a selector. The names that
erasure makes bind nothing that the tree refers to, since the supply has made all generated names of
the tree already.

* `Supply.Spares`: names that the supply will not make for erasure;
* `Node.IsTupled`: the nodes of the trees that erasure is for;
* `ErasedValue`: what belongs together.

Main statements: `call_handOver` (an erased tuple hands over its components),
`delays_selector` (a selector gives back its argument), `Erases.simulates` and
`eraseTuples_simulates`.
-/

namespace ClosureML

open ClosureML.Computation Lowering

/-! ## 1. Trees with tuples -/

/-- The supply makes this name for no tuple and no projection. -/
def Supply.Spares (s : Supply) (x : String) : Prop :=
  ∀ stem ∈ ["t", "s", "x"], ¬ s.Reserves stem x

/-- A name that no supply generates is spared. -/
theorem Supply.spares_of_not_dollar {s : Supply} {x : String} (hx : '$' ∉ x.toList) :
    s.Spares x := by
  rintro stem - ⟨k, -, rfl⟩
  exact hx (dollar_mem_generatedName stem k)

namespace Node

/-- A node of a tree with tuples: a core construct, a tuple with elements, or a projection that
    knows how many elements its tuple has. -/
def IsTupled (old : String → Prop) : Node → Prop
  | tuple _ es => es ≠ []
  | projection _ index arity _ => ∃ n, arity = some n ∧ index < n
  | n => n.IsCore old

theorem IsTupled.isCore {old : String → Prop} {n : Node} (h : n.IsTupled old)
    (htuple : n.kind ≠ .tuple) (hprojection : n.kind ≠ .projection) : n.IsCore old := by
  cases n with
  | tuple => exact absurd rfl htuple
  | projection => exact absurd rfl hprojection
  | _ => exact h

end Node

/-- What erasure makes of a tree, with a supply that is not before `s₀`. -/
abbrev Erases (s₀ : Supply) : Node → Node → Prop :=
  Becomes eraseNode (Node.IsTupled s₀.Spares) s₀.Before

theorem before_eraseTuple {p : Position} {es : List Node} {s s' : Supply} {n : Node}
    (h : Runs (eraseTuple p es) s n s') : s.Before s' := by
  unfold eraseTuple at h
  split at h
  · obtain ⟨-, rfl⟩ := runs_pure.1 h
    exact .refl s
  · simp only [runs_bind, runs_pure] at h
    obtain ⟨ts, s₁, hts, x, s₂, hx, -, rfl⟩ := h
    obtain ⟨-, rfl⟩ := runs_freshName hx
    exact (runs_freshNames hts).2.trans (s₁.before_next "s")

theorem exists_runs_eraseTuple (p : Position) (es : List Node) (s : Supply) :
    ∃ n s', Runs (eraseTuple p es) s n s' := by
  unfold eraseTuple
  split
  · exact ⟨_, _, runs_pure.2 ⟨rfl, rfl⟩⟩
  · obtain ⟨s₁, hts⟩ := exists_runs_freshNames "t" es.length s
    simp only [runs_bind, runs_pure]
    exact ⟨_, _, _, s₁, hts, _, _, exists_runs_freshName "s" s₁, rfl, rfl⟩

/-- **The function that gives back one of its arguments.** -/
theorem runs_selector {p : Position} {index arity : Nat} {s s' : Supply} {n : Node}
    (h : Runs (selector p index arity) s n s') :
    ∃ xs x, xs.length = arity ∧ xs.Nodup ∧ (∀ y ∈ xs, s.Reserves "x" y) ∧ xs[index]? = some x ∧
      n = functions p xs (reference p x) ∧ s.Before s' := by
  unfold selector at h
  simp only [runs_bind] at h
  obtain ⟨xs, s₁, hxs, h⟩ := h
  obtain ⟨rfl, hbefore⟩ := runs_freshNames hxs
  split at h
  · obtain ⟨rfl, rfl⟩ := runs_pure.1 h
    refine ⟨_, _, length_generatedNames .., nodup_generatedNames (by decide) _ _, ?_, ‹_›, rfl,
      hbefore⟩
    intro y hy
    obtain ⟨j, hj, rfl⟩ := mem_generatedNames.1 hy
    exact ⟨j, hj.1, rfl⟩
  · exact (runs_throw h).elim

/-- A selector can be made for a component that the tuple has, and for no other. -/
theorem exists_runs_selector_iff {p : Position} {index arity : Nat} {s : Supply} :
    (∃ n s', Runs (selector p index arity) s n s') ↔ index < arity := by
  constructor
  · rintro ⟨n, s', h⟩
    obtain ⟨xs, x, hlength, -, -, hx, -⟩ := runs_selector h
    exact hlength ▸ (List.getElem?_eq_some_iff.1 hx).1
  · intro hindex
    obtain ⟨s₁, hxs⟩ := exists_runs_freshNames "x" arity s
    have hlength : index < (generatedNames "x" (s.count "x") arity).length := by
      rwa [length_generatedNames]
    obtain ⟨x, hx⟩ : ∃ x, (generatedNames "x" (s.count "x") arity)[index]? = some x :=
      ⟨_, List.getElem?_eq_getElem hlength⟩
    refine ⟨functions p (generatedNames "x" (s.count "x") arity) (reference p x), s₁, ?_⟩
    unfold selector
    refine runs_bind.2 ⟨_, s₁, hxs, ?_⟩
    rw [hx]
    exact runs_pure.2 ⟨rfl, rfl⟩

theorem keepsCore_eraseNode (s₀ : Supply) : KeepsCore eraseNode s₀.Before where
  keeps n h := by
    cases n with
    | tuple | projection => simp [coreKinds, Node.kind] at h
    | _ => rfl
  ready {n s n' s'} h hs := by
    refine hs.trans ?_
    cases n with
    | tuple m es => exact before_eraseTuple h
    | projection m index arity e =>
      cases arity with
      | none => exact (runs_throw h).elim
      | some arity =>
        simp only [eraseNode, eraseProjection, runs_bind, runs_pure] at h
        obtain ⟨f, s₁, hf, -, rfl⟩ := h
        obtain ⟨-, -, -, -, -, -, -, hbefore⟩ := runs_selector hf
        exact hbefore
    | _ => exact (runs_pure.1 h).2 ▸ .refl s

/-- **Erasure succeeds** on a tree with tuples. -/
theorem exists_runs_eraseTuples {old : String → Prop} {n : Node}
    (hn : n.Everywhere (Node.IsTupled old)) (s : Supply) :
    ∃ n' s', Runs n.eraseTuples s n' s' := by
  unfold Node.eraseTuples
  induction hn generalizing s with
  | @mk n h _ ih =>
    cases n with
    | tuple m es =>
      obtain ⟨es', s₁, hes⟩ := @exists_runs_rebuildAll _ es ih s
      obtain ⟨n', s₃, hn'⟩ := exists_runs_eraseTuple m.position es' s₁
      simp only [Node.rebuild, runs_bind]
      exact ⟨n', s₃, es', s₁, hes, hn'⟩
    | projection m index arity e =>
      obtain ⟨k, rfl, hindex⟩ := h
      obtain ⟨e', s₁, he⟩ := ih e (by simp [Node.children]) s
      obtain ⟨f, s₂, hf⟩ := exists_runs_selector_iff (p := m.position).2 hindex
      simp only [Node.rebuild, eraseNode, eraseProjection, runs_bind, runs_pure]
      exact ⟨_, _, e', s₁, he, f, s₂, hf, rfl, rfl⟩
    | _ =>
      have hcore := h.isCore (by simp [Node.kind]) (by simp [Node.kind])
      exact (keepsCore_eraseNode s).exists_runs hcore ih s

/-! ## 2. Values that belong together -/

/-- The elements of a tuple, handed over to a selector. -/
def handOver (p : Position) (selector : String) (ts : List String) : Node :=
  ts.foldl (fun f t => apply p f (reference p t)) (reference p selector)

/-- A value of a tree with tuples, and the value of the tree with its tuples erased. A tuple has
    become a function that hands the components over. -/
inductive ErasedValue (s₀ : Supply) : Value → Value → Prop where
  | word {n : Int} : ErasedValue s₀ (.word n) (.word n)
  | builtin {b : Builtin} : ErasedValue s₀ (.builtin b) (.builtin b)
  | closure {env env' : Environment} {x : String} {body body' : Node}
      (henv : EnvironmentsAgree s₀.Spares (ErasedValue s₀) env env')
      (hbody : Erases s₀ body body') :
      ErasedValue s₀ (.closure env x body) (.closure env' x body')
  | member {env env' : Environment} {functions functions' : List Node} {i : Nat}
      (henv : EnvironmentsAgree s₀.Spares (ErasedValue s₀) env env')
      (hfunctions : List.Forall₂ (KeptFunction (Erases s₀)) functions functions') :
      ErasedValue s₀ (.member env functions i) (.member env' functions' i)
  | tuple {vs vs' : List Value} {env : Environment} {p : Position} {selector : String}
      {ts : List String} (hvs : List.Forall₂ (ErasedValue s₀) vs vs')
      (hts : (ts.map fun t => List.lookup t env) = vs'.map some) (hselector : selector ∉ ts) :
      ErasedValue s₀ (.tuple vs) (.closure env selector (handOver p selector ts))

variable {s₀ : Supply}

theorem keepsValues_erasedValue : KeepsValues s₀.Spares (Erases s₀) (ErasedValue s₀) where
  word _ := .word
  builtin _ := .builtin
  closure henv hbody := .closure henv hbody
  member _ henv hfunctions := .member henv hfunctions
  word?_eq _ _ h := by cases h <;> rfl

/-- **An erased tuple hands over its components**, one after the other. -/
theorem call_handOver {env : Environment} {p : Position} {selector : String} {ts : List String}
    {vs : List Value} (hts : (ts.map fun t => List.lookup t env) = vs.map some)
    (hselector : selector ∉ ts) (f : Value) :
    call (.closure env selector (handOver p selector ts)) f = (callAll f vs).later := by
  have hlookup : (ts.map fun t => List.lookup t ((selector, f) :: env)) = vs.map some := by
    rw [← hts]
    refine List.map_congr_left fun t ht => lookup_cons_of_ne ?_
    rintro rfl
    exact hselector ht
  rw [call_closure, handOver, evaluate_foldl_apply p ts vs _ _ hlookup, reference,
    evaluate_reference, List.lookup_cons_self]
  rfl

/-- **A selector gives back its argument.** -/
theorem delays_selector {p : Position} {index : Nat} {xs : List String} {x : String}
    {vs : List Value} {v : Value} (hxs : xs.Nodup) (hlength : xs.length = vs.length)
    (hx : xs[index]? = some x) (hv : vs[index]? = some v) (env : Environment) :
    Delays ((functions p xs (reference p x)).evaluate env >>= fun f => callAll f vs) (pure v) := by
  have h := delays_callAll p xs vs (reference p x) env hlength
  rwa [reference, evaluate_reference, lookup_bindValues hxs hx hv] at h

/-! ## 3. Trees that belong together -/

section Trees

variable {K : Nat} {env env' : Environment}

/-- Bindings one after the other bind what the trees give. -/
theorem simulates_foldr_bind {p : Position} {V : Value → Value → Prop} {old : String → Prop}
    {es es' : List Node} {ts : List String} {final : Node}
    {f : List Value → Computation Value}
    (hes : List.Forall₂ (fun e e' => ∀ env', EnvironmentsAgree old V env env' →
      Simulates K V (e.evaluate env) (e'.evaluate env')) es es')
    (hlength : ts.length = es.length) (hts : ∀ t ∈ ts, ¬ old t)
    (henv : EnvironmentsAgree old V env env')
    (hf : ∀ vs vs', List.Forall₂ V vs vs' → vs'.length = ts.length →
      Simulates K V (f vs) (final.evaluate (bindValues ts vs' env'))) :
    Simulates K V (Node.evaluateAll es env >>= f)
      (((ts.zip es').foldr (fun (t, e) body => Lowering.bind p t e body) final).evaluate env') := by
  induction hes generalizing ts env' f with
  | nil =>
    obtain rfl := List.eq_nil_of_length_eq_zero hlength
    exact hf [] [] .nil rfl
  | cons he _ ih =>
    cases ts with
    | nil => cases hlength
    | cons t ts =>
      obtain ⟨ht, hts⟩ := List.forall_mem_cons.1 hts
      rw [evaluateAll_cons, bind_bind]
      simp only [List.zip_cons_cons, List.foldr_cons, Lowering.bind, evaluate_letIn]
      refine (he env' henv).bind fun v v' hv => ?_
      rw [bind_bind]
      refine ih (Nat.succ.inj hlength) hts (.extra ht henv) fun vs vs' hvs hlength' => ?_
      rw [pure_bind, ← bindValues_cons]
      exact hf (v :: vs) (v' :: vs') (.cons hv hvs) (congrArg (· + 1) hlength')

theorem not_spares_of_mem_generatedNames {s : Supply} (hs : s₀.Before s) {stem : String}
    (hstem : stem ∈ ["t", "s", "x"]) {n : Nat} {x : String}
    (hx : x ∈ generatedNames stem (s.count stem) n) : ¬ s₀.Spares x := by
  obtain ⟨j, hj, rfl⟩ := mem_generatedNames.1 hx
  exact fun h => h stem hstem ⟨j, Nat.le_trans (hs stem) hj.1, rfl⟩

/-- **An erased tuple does what the tuple does**: its elements are computed from left to right, and
    the function that hands them over stands for it. -/
theorem simulates_eraseTuple {m : Mark} {es es' : List Node} {n' : Node} {s s' : Supply}
    (hne : es ≠ []) (hs : s₀.Before s) (hrun : Runs (eraseNode (.tuple m es')) s n' s')
    (hes : List.Forall₂ (fun e e' => ∀ env',
      EnvironmentsAgree s₀.Spares (ErasedValue s₀) env env' →
        Simulates K (ErasedValue s₀) (e.evaluate env) (e'.evaluate env')) es es')
    (henv : EnvironmentsAgree s₀.Spares (ErasedValue s₀) env env') :
    Simulates K (ErasedValue s₀) ((Node.tuple m es).evaluate env) (n'.evaluate env') := by
  have hes' : es'.isEmpty = false := by
    cases hes with
    | nil => exact absurd rfl hne
    | cons => rfl
  simp only [eraseNode, eraseTuple, hes', Bool.false_eq_true, if_false, runs_bind,
    runs_pure] at hrun
  obtain ⟨ts, s₁, hts, x, s₂, hx, rfl, -⟩ := hrun
  obtain ⟨rfl, hbefore⟩ := runs_freshNames hts
  obtain ⟨rfl, -⟩ := runs_freshName hx
  rw [evaluate_tuple]
  refine simulates_foldr_bind hes (by rw [length_generatedNames, hes.length_eq])
    (fun t ht => not_spares_of_mem_generatedNames hs (by decide) ht) henv
    fun vs vs' hvs hlength => .pure (.tuple hvs ?_ ?_)
  · exact map_lookup_bindValues (nodup_generatedNames (by decide) _ _) hlength.symm env'
  · intro hmem
    obtain ⟨j, -, hj⟩ := mem_generatedNames.1 hmem
    exact generatedName_ne (by decide) (by decide) (.inl (by decide)) hj

/-- **An erased projection does what the projection does**: the selector that gives back one of its
    arguments is called with the components. -/
theorem simulates_eraseProjection {m : Mark} {index : Nat} {arity : Option Nat} {e e' n' : Node}
    {s s' : Supply} (hrun : Runs (eraseNode (.projection m index arity e')) s n' s')
    (he : Simulates K (ErasedValue s₀) (e.evaluate env) (e'.evaluate env')) :
    Simulates K (ErasedValue s₀) ((Node.projection m index arity e).evaluate env)
      (n'.evaluate env') := by
  cases arity with
  | none => exact (runs_throw hrun).elim
  | some arity =>
    simp only [eraseNode, eraseProjection, runs_bind, runs_pure] at hrun
    obtain ⟨f, s₁, hf, rfl, -⟩ := hrun
    obtain ⟨xs, x, hlength, hxs, -, hx, rfl, -⟩ := runs_selector hf
    rw [evaluate_projection, apply, evaluate_application]
    refine he.bind fun v v' hv => ?_
    cases hw : v.component? index (some arity) with
    | none => exact .wrong
    | some w =>
      cases hv with
      | @tuple vs vs' env₁ p selector ts hvs hts hselector =>
        rw [Value.component?] at hw
        split at hw
        · rename_i harity
          have harity : arity = vs.length := of_decide_eq_true harity
          obtain ⟨w', hw', hww'⟩ := forall₂_getElem? hvs hw
          have hselect := delays_selector (p := m.position) hxs
            (by rw [hlength, harity, hvs.length_eq]) hx hw' env'
          refine Simulates.delays (.pure hww') (Delays.trans ?_ hselect)
          refine (Delays.refl _).bind fun g => ?_
          rw [call_handOver hts hselector]
          exact .later _
        · cases hw
      | _ => cases hw

/-- **A tree with its tuples erased does what the tree does**, as long as calls do. -/
theorem Erases.simulates (hcalls : CallsSimulate (ErasedValue s₀) K) {n n' : Node}
    (h : Erases s₀ n n') (henv : EnvironmentsAgree s₀.Spares (ErasedValue s₀) env env') :
    Simulates K (ErasedValue s₀) (n.evaluate env) (n'.evaluate env') := by
  have hn := h.everywhere
  induction hn generalizing n' env env' with
  | @mk n hnode _ ih =>
    cases n with
    | tuple m es =>
      obtain ⟨heverywhere, s, s', hs, hrun⟩ := h
      simp only [Node.rebuild, runs_bind] at hrun
      obtain ⟨es', s₁, hes, hrun⟩ := hrun
      have hall :=
        (keepsCore_eraseNode s₀).forall₂_becomes (fun e he => heverywhere.child he) hs hes
      exact simulates_eraseTuple hnode ((keepsCore_eraseNode s₀).ready_rebuildAll hes hs) hrun
        (((List.forall₂_and_left _ _).2 ⟨fun e (he : e ∈ es) => he, hall⟩).imp
          fun e e' h env' henv => ih e h.1 h.2 henv) henv
    | projection m index arity e =>
      obtain ⟨heverywhere, s, s', hs, hrun⟩ := h
      simp only [Node.rebuild, runs_bind] at hrun
      obtain ⟨e', s₁, he, hrun⟩ := hrun
      exact simulates_eraseProjection hrun
        (ih e (by simp [Node.children])
          ⟨heverywhere.child (by simp [Node.children]), s, s₁, hs, he⟩ henv)
    | _ =>
      have hcore := hnode.isCore (by simp [Node.kind]) (by simp [Node.kind])
      exact (h.kept (keepsCore_eraseNode s₀) hcore).simulates keepsValues_erasedValue hcalls
        (fun c hc c' hcc' env env' henv => ih c hc hcc' henv) henv

end Trees

/-- **Calls of functions that belong together** simulate each other. -/
theorem erasedCalls_simulate : ∀ K, CallsSimulate (ErasedValue s₀) K := by
  intro K
  induction K using Nat.strongRecOn with
  | _ K ih =>
    have hbodies : ∀ J < K, ∀ body body', Erases s₀ body body' → ∀ env env',
        EnvironmentsAgree s₀.Spares (ErasedValue s₀) env env' →
          Simulates J (ErasedValue s₀) (body.evaluate env) (body'.evaluate env') :=
      fun J hJ _ _ hbody _ _ henv => hbody.simulates (ih J hJ) henv
    intro f f' v v' hf hv
    cases hf with
    | word =>
      rw [call_word]
      exact .wrong
    | builtin => exact simulates_call_builtin keepsValues_erasedValue _ hv
    | closure henv hbody => exact simulates_call_closure hbodies henv hbody hv
    | member henv hfunctions =>
      exact simulates_call_member hbodies keepsValues_erasedValue henv hfunctions hv
    | tuple =>
      rw [call_tuple]
      exact .wrong

/-- **Erasure of tuples keeps what a tree does.** It succeeds on every tree of core constructs,
    tuples with elements and projections that know their tuples, as long as no reference of the tree
    is a name that the supply makes later; and the tree that it gives does what the tree before
    does, when that does not go wrong. -/
theorem eraseTuples_simulates {n : Node} {s : Supply}
    (hn : n.Everywhere (Node.IsTupled s.Spares)) :
    ∃ n' s', Runs n.eraseTuples s n' s' ∧
      ∀ K env env', EnvironmentsAgree s.Spares (ErasedValue s) env env' →
        Simulates K (ErasedValue s) (n.evaluate env) (n'.evaluate env') := by
  obtain ⟨n', s', hrun⟩ := exists_runs_eraseTuples hn s
  have h : Erases s n n' := ⟨hn, s, s', .refl s, hrun⟩
  exact ⟨n', s', hrun, fun K env env' henv => h.simulates (erasedCalls_simulate K) henv⟩

/-- The second component of a pair: `(\x -> (x, 8).1) 7`. -/
def secondOfPair : Node :=
  let p : Position := ⟨1, 1⟩
  apply p (function p "x" (.projection (.at p) 1 (some 2) (pair p (reference p "x") (integer p 8))))
    (integer p 7)

theorem everywhere_secondOfPair :
    secondOfPair.Everywhere (Node.IsTupled Supply.empty.Spares) := by
  have leaf : ∀ {p : Node → Prop} {n : Node}, p n → n.children = [] → n.Everywhere p :=
    fun hn hc => .mk hn (by simp [hc])
  have hx : Supply.empty.Spares "x" := Supply.spares_of_not_dollar (by decide)
  have hpair := Node.Everywhere.mk (n := pair ⟨1, 1⟩ (reference ⟨1, 1⟩ "x") (integer ⟨1, 1⟩ 8))
    (p := Node.IsTupled Supply.empty.Spares) (List.cons_ne_nil _ _)
    (List.forall_mem_cons.2 ⟨leaf hx rfl, List.forall_mem_singleton.2 (leaf trivial rfl)⟩)
  refine .mk trivial (List.forall_mem_cons.2
    ⟨.mk trivial ?_, List.forall_mem_singleton.2 (leaf trivial rfl)⟩)
  exact List.forall_mem_singleton.2 (.mk ⟨2, rfl, by decide⟩ (List.forall_mem_singleton.2 hpair))

/-- Erased, it still gives the second component. -/
theorem eraseTuples_simulates_secondOfPair :
    secondOfPair.Everywhere (Node.IsTupled Supply.empty.Spares) ∧
      ∃ n' s', Runs secondOfPair.eraseTuples .empty n' s' ∧
        ∀ K env env', EnvironmentsAgree Supply.empty.Spares (ErasedValue .empty) env env' →
          Simulates K (ErasedValue .empty) (secondOfPair.evaluate env) (n'.evaluate env') :=
  ⟨everywhere_secondOfPair, eraseTuples_simulates everywhere_secondOfPair⟩

end ClosureML
