import ClosureML.Proofs.Semantics.Lowered
import Mathlib.Data.List.Nodup

/-!
# Lowered patterns match as patterns do

The function that a pattern is lowered to, called with a value, gives the pair of success with the
result of the arm when the pattern matches the value, and the pair of failure when it does not. The
result of the arm is evaluated in an environment in which the names of the pattern have the values
that they are matched with. The statements hold for every result, since the functions of later
elements are results for the earlier ones.

* `Node.IsTaggedPart`: parts of patterns whose constructors have their numbers;
* `KeepsData`: how tuples and values of data types are represented;
* `Tries`: what the function of a pattern does, as the pattern matches or not;
* `AppliesInTurn`: what the functions of several patterns do to the elements of a tuple.

Main statements: `tupleFunction_tries` (several patterns, one after the other) and
`patternFunction_tries`.
-/

namespace ClosureML

open ClosureML.Computation Lowering

/-! ## 1. Patterns and values -/

/-- A node of a pattern whose constructors have their numbers. -/
def Node.IsTaggedPart (tags : List (String × Nat)) : Node → Prop
  | .patternBinder .. | .patternLiteral .. | .patternTuple .. => True
  | .patternConstructor _ c _ tag => ∃ n, tag = some n ∧ (c, n) ∈ tags
  | _ => False

/-- Words stay, tuples are tuples, and a value of a data type is a pair of the number of its
    constructor and the tuple of its arguments, if it has any. -/
structure KeepsData (tags : List (String × Nat)) (V : Value → Value → Prop) : Prop where
  word : ∀ {n v'}, V (.word n) v' → v' = .word n
  tuple : ∀ {vs v'}, V (.tuple vs) v' → ∃ vs', v' = .tuple vs' ∧ List.Forall₂ V vs vs'
  data : ∀ {c vs v'}, V (.data c vs) v' → ∃ (tag : Nat) (payload : Value) (vs' : List Value),
    v' = .tuple [.word tag, payload] ∧ (c, tag) ∈ tags ∧ List.Forall₂ V vs vs' ∧
      (vs' ≠ [] → payload = .tuple vs')

/-- The pair of a pattern that matched. -/
def Value.succeeded (v : Value) : Value := .tuple [.word successTag, v]

/-- The pair of a pattern that did not match. -/
def Value.failed : Value := .tuple [.word failureTag, .word 0]

/-- What trying a pattern does: it gives the pair of success with the result where the names of the
    pattern are bound, or the pair of failure. About a value without the shape that the pattern is
    about, nothing is said. -/
inductive Tries (V : Value → Value → Prop) (result : Node) :
    Matching → Computation Value → Prop where
  | binds {env env' : Environment} {x : Computation Value}
      (henv : EnvironmentsAgree IsProgramName V env env')
      (hx : Delays x (do
        let v ← result.evaluate env'
        pure v.succeeded)) : Tries V result (.binds env) x
  | fails {x : Computation Value} (hx : Delays x (pure .failed)) : Tries V result .fails x
  | misfit {x : Computation Value} : Tries V result .misfit x

theorem Tries.delays {V : Value → Value → Prop} {result : Node} {m : Matching}
    {x y : Computation Value} (h : Tries V result m x) (hy : Delays y x) : Tries V result m y := by
  cases h with
  | binds henv hx => exact .binds henv (hy.trans hx)
  | fails hx => exact .fails (hy.trans hx)
  | misfit => exact .misfit

/-! ## 2. What the parts do -/

section Parts

variable {p : Position} {env : Environment}

theorem evaluate_function (x : String) (body : Node) :
    (function p x body).evaluate env = pure (.closure env x body) := rfl

theorem evaluate_apply (f a : Node) :
    (apply p f a).evaluate env =
      (do
        let f ← f.evaluate env
        let v ← a.evaluate env
        call f v) := rfl

theorem evaluate_bind (x : String) (value body : Node) :
    (Lowering.bind p x value body).evaluate env =
      (do
        let v ← value.evaluate env
        body.evaluate ((x, v) :: env)) := rfl

theorem evaluate_integer (n : Int) : (integer p n).evaluate env = pure (.word n) := rfl

theorem evaluate_pair (a b : Node) :
    (pair p a b).evaluate env =
      (do
        let v ← a.evaluate env
        let w ← b.evaluate env
        pure (.tuple [v, w])) := by
  rw [pair, evaluate_tuple, evaluateAll_cons, evaluateAll_cons, evaluateAll_nil]
  simp only [bind_bind, pure_bind]

theorem evaluate_success (result : Node) :
    (success p result).evaluate env =
      (do
        let v ← result.evaluate env
        pure v.succeeded) := by
  rw [success, evaluate_pair, evaluate_integer, pure_bind]
  rfl

theorem evaluate_failure : (failure p).evaluate env = pure .failed := rfl

theorem evaluate_component {x : String} {index : Nat} {vs : List Value} {v : Value}
    (hx : env.lookup x = some (.tuple vs)) (hv : vs[index]? = some v) :
    (component p x index vs.length).evaluate env = pure v := by
  rw [component, evaluate_projection, reference, evaluate_reference, hx, orWrong_some, pure_bind,
    Value.component?_tuple hv fun _ h => (Option.some.inj h).symm]
  rfl

/-- A conditional that compares two words. -/
theorem evaluate_choose_equals {a b t e : Node} {n k : Int} (ha : a.evaluate env = pure (.word n))
    (hb : b.evaluate env = pure (.word k)) :
    (choose p (equals p a b) t e).evaluate env =
      if n = k then t.evaluate env else e.evaluate env := by
  rw [choose, evaluate_conditional, equals, evaluate_binary, ha, hb]
  simp only [pure_bind, Value.word?, BinaryOperator.operate_equals, orStop_ok, orWrong_some, truth]
  by_cases h : n = k <;> simp [h]

/-- The test of the outcome of a pattern that matched. -/
theorem evaluate_choose_succeeded {x : String} {v : Value} {tag : Int} {t e : Node}
    (hx : env.lookup x = some v.succeeded) :
    (choose p (equals p (component p x 0 2) (integer p tag)) t e).evaluate env =
      if successTag = tag then t.evaluate env else e.evaluate env :=
  evaluate_choose_equals (evaluate_component hx rfl) (evaluate_integer tag)

/-- The test of the outcome of a pattern that did not match. -/
theorem evaluate_choose_failed {x : String} {tag : Int} {t e : Node}
    (hx : env.lookup x = some .failed) :
    (choose p (equals p (component p x 0 2) (integer p tag)) t e).evaluate env =
      if failureTag = tag then t.evaluate env else e.evaluate env :=
  evaluate_choose_equals (evaluate_component hx rfl) (evaluate_integer tag)

end Parts

theorem getElem?_and_drop_of_drop_eq_cons {α : Type} {as bs : List α} {a : α} {i : Nat}
    (h : as.drop i = a :: bs) : as[i]? = some a ∧ as.drop (i + 1) = bs := by
  constructor
  · rw [← List.head?_drop, h]
    rfl
  · rw [← List.tail_drop, h]
    rfl

/-! ## 3. Functions of patterns -/

theorem applyInTurn_cons_cons (p : Position) (argument : String) (arity : Nat) (function : Node)
    (step : Nat) (r r₂ : String) (names : List String) :
    applyInTurn p argument arity function step (r :: r₂ :: names) =
      Lowering.bind p r (apply p function (component p argument step arity))
        (choose p (equals p (component p r 0 2) (integer p failureTag)) (failure p)
          (applyInTurn p argument arity (component p r 1 2) (step + 1) (r₂ :: names))) := by
  rw [applyInTurn]
  exact nofun

section Functions

variable {p : Position} {result g : Node} {s s' : Supply}

theorem patternFunction_constructor (m : Mark) (c : String) (pats : List Node) (tag : Nat) :
    patternFunction p result (.patternConstructor m c pats (some tag)) =
      (do
        let x ← freshName "x"
        let payload ← tupleFunction p result pats
        return function p x (choose p (equals p (component p x 0 2) (integer p tag))
          (apply p payload (component p x 1 2)) (failure p))) := by
  rw [patternFunction]

theorem runs_tupleFunction {pats : List Node} (h : Runs (tupleFunction p result pats) s g s') :
    ∃ x body, g = function p x body := by
  unfold tupleFunction at h
  simp only [runs_bind] at h
  obtain ⟨x, s₁, -, h⟩ := h
  split at h
  · exact ⟨x, _, (runs_pure.1 h).1.symm⟩
  · simp only [runs_bind, runs_pure] at h
    obtain ⟨chained, s₂, -, chain, s₃, -, steps, s₄, -, rfl, -⟩ := h
    exact ⟨x, _, rfl⟩

/-- A pattern is lowered to a function. -/
theorem runs_patternFunction {pat : Node} (h : Runs (patternFunction p result pat) s g s') :
    ∃ x body, g = function p x body := by
  cases pat with
  | patternBinder m x =>
    rw [patternFunction, runs_pure] at h
    exact ⟨x, _, h.1.symm⟩
  | patternLiteral m l =>
    rw [patternFunction] at h
    simp only [runs_bind, runs_pure] at h
    obtain ⟨x, s₁, -, rfl, -⟩ := h
    exact ⟨x, _, rfl⟩
  | patternTuple m pats =>
    rw [patternFunction] at h
    exact runs_tupleFunction h
  | patternConstructor m c pats tag =>
    cases tag with
    | none =>
      unfold patternFunction at h
      exact (runs_throw h).elim
    | some tag =>
      rw [patternFunction_constructor] at h
      simp only [runs_bind, runs_pure] at h
      obtain ⟨x, s₁, -, payload, s₂, -, rfl, -⟩ := h
      exact ⟨x, _, rfl⟩
  | _ =>
    unfold patternFunction at h
    exact (runs_throw h).elim

/-- Several patterns are lowered to a function, that of the first one. -/
theorem runs_chainedFunction {pats : List Node} (hne : pats ≠ [])
    (h : Runs (chainedFunction p result pats) s g s') : ∃ x body, g = function p x body := by
  cases pats with
  | nil => exact absurd rfl hne
  | cons pat rest =>
    rw [chainedFunction, runs_bind] at h
    obtain ⟨inner, s₁, -, h⟩ := h
    exact runs_patternFunction h

end Functions

section Tries

variable {p : Position} {V : Value → Value → Prop} {tags : List (String × Nat)}

/-- What the functions of several patterns, applied in turn to elements of a tuple, do: what the
    patterns make of the elements. The elements are the last ones of the tuple, and `function`
    stands for the function of the first of them. -/
def AppliesInTurn (p : Position) (V : Value → Value → Prop) (result : Node) (pats : List Node)
    (chained : Node) : Prop :=
  ∀ {env env' inner : Environment} {ws ws' vs : List Value} {argument : String} {function : Node}
    {step : Nat} {names : List String}, EnvironmentsAgree IsProgramName V env env' →
      List.Forall₂ V ws ws' → pats.length = ws.length → names.length = pats.length →
        argument ∉ names → inner.lookup argument = some (.tuple vs) → vs.drop step = ws' →
          function.evaluate inner = chained.evaluate env' →
            Tries V result (matchPatterns env pats ws)
              ((applyInTurn p argument vs.length function step names).evaluate inner)

/-- **One pattern more**: what its function gives is applied to the next elements. -/
theorem AppliesInTurn.cons {result inner chained pat : Node} {pats : List Node} (hne : pats ≠ [])
    (hinner : ∃ x body, inner = Lowering.function p x body)
    (hpats : AppliesInTurn p V result pats inner)
    (hpat : ∀ {env env' v v'}, V v v' → EnvironmentsAgree IsProgramName V env env' →
      Tries V inner (matchPattern env pat v) (chained.evaluate env' >>= fun f => call f v')) :
    AppliesInTurn p V result (pat :: pats) chained := by
  intro env env' env'' ws ws' vs argument function step names henv hws hlength hnames hargument
    hlookup hdrop hfunction
  obtain ⟨r, names, rfl⟩ := List.exists_cons_of_length_eq_add_one hnames
  obtain ⟨v, ws, rfl⟩ := List.exists_cons_of_length_eq_add_one hlength.symm
  obtain ⟨hr, hargument⟩ := not_or.1 (mt List.mem_cons.2 hargument)
  cases hws with
  | @cons _ v' _ ws' hv hws =>
    obtain ⟨hv', hrest⟩ := getElem?_and_drop_of_drop_eq_cons hdrop
    have hcall : (apply p function (component p argument step vs.length)).evaluate env'' =
        (chained.evaluate env' >>= fun f => call f v') := by
      rw [evaluate_apply, hfunction, evaluate_component hlookup hv']
      rfl
    have htries := hpat hv henv
    cases names with
    | nil => exact absurd (List.eq_nil_of_length_eq_zero (Nat.succ.inj hnames).symm) hne
    | cons r₂ names =>
      rw [applyInTurn_cons_cons, evaluate_bind, hcall]
      unfold matchPatterns
      generalize matchPattern env pat v = m, (chained.evaluate env' >>= fun f => call f v') = x
        at htries
      cases htries with
      | misfit => exact .misfit
      | fails hx =>
        refine .fails (.trans (hx.bind fun _ => .refl _) ?_)
        rw [Computation.pure_bind, evaluate_choose_failed List.lookup_cons_self, if_pos rfl,
          evaluate_failure]
        exact .refl _
      | @binds env₁ env₁' _ henv₁ hx =>
        obtain ⟨y, body, rfl⟩ := hinner
        rw [evaluate_function, Computation.pure_bind] at hx
        -- the outcome holds the function of the next pattern
        have hlater : Tries V result (matchPatterns env₁ pats ws)
            ((applyInTurn p argument vs.length (component p r 1 2) (step + 1)
              (r₂ :: names)).evaluate
              ((r, (Value.closure env₁' y body).succeeded) :: env'')) := by
          refine hpats henv₁ hws (Nat.succ.inj hlength) (Nat.succ.inj hnames) hargument ?_ hrest
            (evaluate_component List.lookup_cons_self rfl)
          rw [lookup_cons_of_ne hr]
          exact hlookup
        refine hlater.delays (.trans (hx.bind fun _ => .refl _) ?_)
        rw [Computation.pure_bind, evaluate_choose_succeeded List.lookup_cons_self,
          if_neg (by decide)]
        exact .refl _

/-- The last pattern. -/
theorem AppliesInTurn.last {result chained pat : Node}
    (hpat : ∀ {env env' v v'}, V v v' → EnvironmentsAgree IsProgramName V env env' →
      Tries V result (matchPattern env pat v) (chained.evaluate env' >>= fun f => call f v')) :
    AppliesInTurn p V result [pat] chained := by
  intro env env' env'' ws ws' vs argument function step names henv hws hlength hnames hargument
    hlookup hdrop hfunction
  obtain ⟨r, rfl⟩ := List.length_eq_one_iff.1 hnames
  obtain ⟨v, rfl⟩ := List.length_eq_one_iff.1 hlength.symm
  cases hws with
  | @cons _ v' _ ws' hv _ =>
    obtain ⟨hv', -⟩ := getElem?_and_drop_of_drop_eq_cons hdrop
    have hcall : (applyInTurn p argument vs.length function step [r]).evaluate env'' =
        (chained.evaluate env' >>= fun f => call f v') := by
      rw [applyInTurn, evaluate_apply, hfunction, evaluate_component hlookup hv']
      rfl
    have htries := hpat hv henv
    rw [hcall]
    unfold matchPatterns
    generalize matchPattern env pat v = m at htries
    cases htries with
    | misfit => exact .misfit
    | fails hx => exact .fails hx
    | binds henv' hx => exact .binds henv' hx

/-- **The function of several patterns**, called with a tuple of their arguments, does what the
    patterns make of the elements. Without patterns, it succeeds with whatever it is called with. -/
theorem tupleFunction_tries {result g : Node} {pats : List Node} {s s' : Supply}
    (hrun : Runs (tupleFunction p result pats) s g s')
    (hpats : pats ≠ [] → ∀ {s chained s'}, Runs (chainedFunction p result pats) s chained s' →
      AppliesInTurn p V result pats chained)
    {env env' : Environment} {vs vs' : List Value} {v' : Value}
    (henv : EnvironmentsAgree IsProgramName V env env') (hvs : List.Forall₂ V vs vs')
    (hlength : pats.length = vs.length) (hv' : vs' ≠ [] → v' = .tuple vs') :
    Tries V result (matchPatterns env pats vs) (g.evaluate env' >>= fun f => call f v') := by
  unfold tupleFunction at hrun
  simp only [runs_bind] at hrun
  obtain ⟨x, s₁, hx, hrun⟩ := hrun
  obtain ⟨rfl, -⟩ := runs_freshName hx
  have hextra : ∀ v, EnvironmentsAgree IsProgramName V env
      ((generatedName "x" (s.count "x"), v) :: env') := fun v =>
    .extra (not_isProgramName_generatedName _ _) henv
  -- without patterns, the function does not look at its argument
  cases pats with
  | nil =>
    obtain ⟨rfl, -⟩ := runs_pure.1 hrun
    obtain rfl := List.eq_nil_of_length_eq_zero hlength.symm
    cases hvs with
    | nil =>
      rw [evaluate_function, Computation.pure_bind, call_closure, evaluate_success]
      exact .binds (hextra v') (.later _)
  | cons pat pats =>
    simp only [List.isEmpty_cons, Bool.false_eq_true, if_false, runs_bind, runs_pure] at hrun
    obtain ⟨chained, s₂, hchained, chain, s₃, hchain, steps, s₄, hsteps, rfl, -⟩ := hrun
    obtain ⟨rfl, -⟩ := runs_freshName hchain
    obtain ⟨rfl, -⟩ := runs_freshNames hsteps
    obtain ⟨y, body, hfunction⟩ := runs_chainedFunction (List.cons_ne_nil _ _) hchained
    have hne : vs' ≠ [] := by
      rintro rfl
      cases hvs
      cases hlength
    obtain rfl := hv' hne
    have hchained' : AppliesInTurn p V result (pat :: pats) chained :=
      hpats (List.cons_ne_nil _ _) hchained
    -- the chain is applied to the components of the argument, one after the other
    have happlied : ∀ F, chained.evaluate ((generatedName "x" (s.count "x"), .tuple vs') :: env') =
        pure F → Tries V result (matchPatterns env (pat :: pats) vs)
          ((applyInTurn p (generatedName "x" (s.count "x")) (pat :: pats).length
            (reference p (generatedName "ptnlam" (s₂.count "ptnlam"))) 0
              (generatedNames "r" (s₃.count "r") (pat :: pats).length)).evaluate
            ((generatedName "ptnlam" (s₂.count "ptnlam"), F) ::
              (generatedName "x" (s.count "x"), .tuple vs') :: env')) := by
      intro F hF
      rw [hlength, hvs.length_eq]
      refine hchained' (hextra (.tuple vs')) hvs hlength ?_ ?_ ?_ rfl ?_
      · rw [length_generatedNames, hlength, hvs.length_eq]
      · intro hmem
        obtain ⟨j, -, hj⟩ := mem_generatedNames.1 hmem
        exact generatedName_ne (by decide) (by decide) (.inl (by decide)) hj
      · rw [lookup_cons_of_ne (generatedName_ne (by decide) (by decide) (.inl (by decide))),
          List.lookup_cons_self]
      · rw [hF, reference, evaluate_reference, List.lookup_cons_self]
        rfl
    rw [evaluate_function, Computation.pure_bind, call_closure, evaluate_bind]
    subst hfunction
    exact (happlied _ (evaluate_function y body)).delays (.later _)

/-- Constructors are the same when their numbers are. -/
theorem eq_of_mem_tags {c d : String} {n k : Nat} (hnames : (tags.map Prod.fst).Nodup)
    (htags : (tags.map Prod.snd).Nodup) (hc : (c, n) ∈ tags) (hd : (d, k) ∈ tags) :
    d = c ↔ (k : Int) = n := by
  constructor
  · rintro rfl
    have := List.inj_on_of_nodup_map hnames hd hc rfl
    cases this
    rfl
  · intro h
    have hkn : k = n := Int.ofNat.inj h
    cases List.inj_on_of_nodup_map htags hd hc hkn
    rfl

mutual

/-- **The function of a pattern matches as the pattern does.** -/
theorem patternFunction_tries (hV : KeepsData tags V) (hnames : (tags.map Prod.fst).Nodup)
    (htags : (tags.map Prod.snd).Nodup) : ∀ {pat : Node}, pat.Everywhere (Node.IsTaggedPart tags) →
      ∀ {result g : Node} {s s' : Supply}, Runs (patternFunction p result pat) s g s' →
        ∀ {env env' : Environment} {v v' : Value}, V v v' →
          EnvironmentsAgree IsProgramName V env env' →
            Tries V result (matchPattern env pat v) (g.evaluate env' >>= fun f => call f v')
  | pat, hpat, result, g, s, s', hrun, env, env', v, v', hv, henv => by
    cases pat with
    | patternBinder m x =>
      rw [patternFunction, runs_pure] at hrun
      obtain ⟨rfl, -⟩ := hrun
      rw [evaluate_function, Computation.pure_bind, call_closure, evaluate_success]
      exact .binds (.bind hv henv) (.later _)
    | patternLiteral m l =>
      rw [patternFunction] at hrun
      simp only [runs_bind, runs_pure] at hrun
      obtain ⟨x, s₁, hx, rfl, -⟩ := hrun
      obtain ⟨rfl, -⟩ := runs_freshName hx
      cases v with
      | word n =>
        obtain rfl := hV.word hv
        rw [evaluate_function, Computation.pure_bind, call_closure]
        -- the call takes a step that matching does not take
        refine Tries.delays ?_ (.later _)
        have hn : (reference p (generatedName "x" (s.count "x"))).evaluate
            ((generatedName "x" (s.count "x"), .word n) :: env') = pure (.word n) := by
          rw [reference, evaluate_reference, List.lookup_cons_self]
          rfl
        rw [evaluate_choose_equals hn (evaluate_literal l)]
        unfold matchPattern
        split
        · rw [evaluate_success]
          exact .binds (.extra (not_isProgramName_generatedName _ _) henv) (.refl _)
        · exact .fails (.refl _)
      | _ => exact .misfit
    | patternTuple m pats =>
      rw [patternFunction] at hrun
      cases v with
      | tuple vs =>
        obtain ⟨vs', rfl, hvs⟩ := hV.tuple hv
        unfold matchPattern
        split
        · exact tupleFunction_tries hrun
            (fun hne _ _ _ => chainedFunction_applies hV hnames htags hne fun q hq =>
              hpat.child hq)
            henv hvs ‹_› fun _ => rfl
        · exact .misfit
      | _ => exact .misfit
    | patternConstructor m c pats tag =>
      obtain ⟨n, rfl, hc⟩ := hpat.here
      rw [patternFunction_constructor] at hrun
      simp only [runs_bind, runs_pure] at hrun
      obtain ⟨x, s₁, hx, payload, s₂, hpayload, rfl, -⟩ := hrun
      obtain ⟨rfl, -⟩ := runs_freshName hx
      cases v with
      | data d vs =>
        obtain ⟨k, w, vs', rfl, hd, hvs, hw⟩ := hV.data hv
        have hx : List.lookup (generatedName "x" (s.count "x"))
            ((generatedName "x" (s.count "x"), .tuple [.word k, w]) :: env') =
              some (.tuple [.word k, w]) := List.lookup_cons_self
        have hfirst : (component p (generatedName "x" (s.count "x")) 0 2).evaluate
            ((generatedName "x" (s.count "x"), .tuple [.word k, w]) :: env') = pure (.word k) :=
          evaluate_component hx rfl
        have hsecond : (component p (generatedName "x" (s.count "x")) 1 2).evaluate
            ((generatedName "x" (s.count "x"), .tuple [.word k, w]) :: env') = pure w :=
          evaluate_component hx rfl
        rw [evaluate_function, Computation.pure_bind, call_closure]
        refine Tries.delays ?_ (.later _)
        rw [evaluate_choose_equals hfirst (evaluate_integer n)]
        unfold matchPattern
        -- constructors differ just when their numbers do
        by_cases hdc : d = c
        · rw [if_pos hdc, if_pos ((eq_of_mem_tags hnames htags hc hd).1 hdc)]
          split
          · rw [evaluate_apply, hsecond]
            exact tupleFunction_tries hpayload
              (fun hne _ _ _ => chainedFunction_applies hV hnames htags hne fun q hq =>
                hpat.child hq)
              (.extra (not_isProgramName_generatedName _ _) henv) hvs ‹_› hw
          · exact .misfit
        · rw [if_neg hdc, if_neg (mt (eq_of_mem_tags hnames htags hc hd).2 hdc)]
          exact .fails (.refl _)
      | _ => exact .misfit
    | _ => exact hpat.here.elim
termination_by structural pat => pat

theorem chainedFunction_applies (hV : KeepsData tags V) (hnames : (tags.map Prod.fst).Nodup)
    (htags : (tags.map Prod.snd).Nodup) : ∀ {pats : List Node}, pats ≠ [] →
      (∀ pat ∈ pats, pat.Everywhere (Node.IsTaggedPart tags)) →
      ∀ {result chained : Node} {s s' : Supply},
        Runs (chainedFunction p result pats) s chained s' → AppliesInTurn p V result pats chained
  | [], hne, _, _, _, _, _, _ => absurd rfl hne
  | [pat], _, hpats, result, chained, s, s', hrun => by
    rw [chainedFunction, chainedFunction, runs_bind] at hrun
    obtain ⟨_, _, hinner, hrun⟩ := hrun
    obtain ⟨rfl, rfl⟩ := runs_pure.1 hinner
    exact AppliesInTurn.last fun hv henv =>
      patternFunction_tries hV hnames htags (hpats _ List.mem_cons_self) hrun hv henv
  | pat :: pat₂ :: pats, _, hpats, result, chained, s, s', hrun => by
    rw [chainedFunction, runs_bind] at hrun
    obtain ⟨inner, s₁, hinner, hrun⟩ := hrun
    exact AppliesInTurn.cons (List.cons_ne_nil pat₂ pats)
      (runs_chainedFunction (List.cons_ne_nil _ _) hinner)
      (chainedFunction_applies hV hnames htags (List.cons_ne_nil _ _)
        (fun q hq => hpats q (List.mem_cons_of_mem _ hq)) hinner)
      fun hv henv => patternFunction_tries hV hnames htags (hpats _ List.mem_cons_self) hrun hv henv
termination_by structural pats => pats

end

end Tries

/-! ## 4. Lowering a pattern succeeds -/

section Success

variable {p : Position} {tags : List (String × Nat)}

theorem exists_runs_tupleFunction {result : Node} {pats : List Node}
    (hpats : ∀ s, ∃ g s', Runs (chainedFunction p result pats) s g s') (s : Supply) :
    ∃ g s', Runs (tupleFunction p result pats) s g s' := by
  unfold tupleFunction
  simp only [runs_bind]
  by_cases hempty : pats.isEmpty = true
  · simp only [if_pos hempty, runs_pure]
    exact ⟨_, _, _, _, exists_runs_freshName "x" s, rfl, rfl⟩
  · obtain ⟨chained, s₂, hchained⟩ := hpats (s.next "x").2
    obtain ⟨s₄, hsteps⟩ := exists_runs_freshNames "r" pats.length (s₂.next "ptnlam").2
    simp only [if_neg hempty, runs_bind, runs_pure]
    exact ⟨_, _, _, _, exists_runs_freshName "x" s, chained, s₂, hchained, _, _,
      exists_runs_freshName "ptnlam" s₂, _, s₄, hsteps, rfl, rfl⟩

mutual

theorem exists_runs_patternFunction : ∀ {pat : Node}, pat.Everywhere (Node.IsTaggedPart tags) →
    ∀ (result : Node) (s : Supply), ∃ g s', Runs (patternFunction p result pat) s g s'
  | pat, hpat, result, s => by
    cases pat with
    | patternBinder m x =>
      rw [patternFunction]
      exact ⟨_, _, runs_pure.2 ⟨rfl, rfl⟩⟩
    | patternLiteral m l =>
      rw [patternFunction]
      simp only [runs_bind, runs_pure]
      exact ⟨_, _, _, _, exists_runs_freshName "x" s, rfl, rfl⟩
    | patternTuple m pats =>
      rw [patternFunction]
      exact exists_runs_tupleFunction
        (exists_runs_chainedFunction (fun q hq => hpat.child hq) result) s
    | patternConstructor m c pats tag =>
      obtain ⟨n, rfl, -⟩ := hpat.here
      obtain ⟨payload, s₂, hpayload⟩ := exists_runs_tupleFunction
        (exists_runs_chainedFunction (fun q hq => hpat.child hq) result) (s.next "x").2
      rw [patternFunction_constructor]
      simp only [runs_bind, runs_pure]
      exact ⟨_, _, _, _, exists_runs_freshName "x" s, payload, s₂, hpayload, rfl, rfl⟩
    | _ => exact hpat.here.elim

theorem exists_runs_chainedFunction : ∀ {pats : List Node},
    (∀ pat ∈ pats, pat.Everywhere (Node.IsTaggedPart tags)) → ∀ (result : Node) (s : Supply),
      ∃ g s', Runs (chainedFunction p result pats) s g s'
  | [], _, result, s => ⟨result, s, by rw [chainedFunction]; exact runs_pure.2 ⟨rfl, rfl⟩⟩
  | pat :: pats, hpats, result, s => by
    obtain ⟨inner, s₁, hinner⟩ :=
      exists_runs_chainedFunction (fun q hq => hpats q (List.mem_cons_of_mem _ hq)) result s
    obtain ⟨g, s', hg⟩ := exists_runs_patternFunction (hpats pat List.mem_cons_self) inner s₁
    rw [chainedFunction]
    simp only [runs_bind]
    exact ⟨g, s', inner, s₁, hinner, hg⟩

end

end Success

end ClosureML
