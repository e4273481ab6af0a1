import ClosureML.Proofs.Names.ResolutionRun
import ClosureML.Proofs.Semantics.PatternLowering

/-!
# Lowering of data types and matches keeps what a program does

The program with its data types and matches lowered does what the program with its names resolved
does. Where the one has a value of a data type, the other has the pair of the number of its
constructor and the tuple of its arguments, or of the unit value when there are none. A constructor
that waits for arguments is a function that has got some of them. A `match` evaluates its scrutinee
once, then tries its arms in order and evaluates the body of the first that matches; when none does,
both programs end with the same exit code.

* `Node.IsMatched`: the trees that lowering is for;
* `LoweredValue`: what belongs together;
* `KeptArm`: an arm before and behind the lowering of its parts.

Main statements: `simulates_firstSuccess` (the arms, one after the other),
`simulates_constructorValues` (the declaration of a data type), `lowersFaithfully` (one case for
each construct) and `IsProgram.lowerMatches_simulates`.
-/

namespace ClosureML

open ClosureML.Computation Lowering

/-! ## 1. Trees -/

/-- A constructor of a data type with its number. -/
def IsTaggedConstructor (tags : List (String × Nat)) (n : Node) : Prop :=
  ∃ m c parameters tag, n = .dataConstructor m c parameters (some tag) ∧ (c, tag) ∈ tags

/-- An arm of a `match` whose pattern has its numbers. -/
def IsTaggedArm (tags : List (String × Nat)) (n : Node) : Prop :=
  ∃ m p body, n = .matchArm m p body ∧ p.Everywhere (Node.IsTaggedPart tags)

/-- A node of a tree with its names resolved: a core construct, a tuple, a projection, the
    declaration of a data type or a `match`, or a part of these two. -/
def Node.IsMatched (tags : List (String × Nat)) : Node → Prop
  | dataType _ _ cs _ => ∀ c ∈ cs, IsTaggedConstructor tags c
  | matchWith _ _ arms => ∀ arm ∈ arms, IsTaggedArm tags arm
  | tuple .. | projection .. | matchArm .. | dataConstructor .. | patternBinder .. | patternTuple ..
  | patternLiteral .. | patternConstructor .. => True
  | n => n.IsCore IsProgramName

theorem Node.IsMatched.isCore {tags : List (String × Nat)} {n : Node} (h : n.IsMatched tags)
    (hkind : n.kind ∈ coreKinds) : n.IsCore IsProgramName := by
  cases n with
  | tuple | projection | dataType | matchWith | matchArm | dataConstructor | patternBinder
  | patternTuple | patternLiteral | patternConstructor => simp [coreKinds, Node.kind] at hkind
  | _ => exact h

/-- What lowering makes of a tree. -/
abbrev LowersTo (tags : List (String × Nat)) : Node → Node → Prop :=
  Becomes lowerMatchNode (Node.IsMatched tags) fun _ => True

/-- An arm of a `match` before and behind the lowering of its parts. -/
inductive KeptArm (tags : List (String × Nat)) : Node → Node → Prop where
  | mk {m : Mark} {p body body' : Node} (hp : p.Everywhere (Node.IsTaggedPart tags))
      (hbody : LowersTo tags body body') : KeptArm tags (.matchArm m p body) (.matchArm m p body')

theorem keepsCore_lowerMatchNode : KeepsCore lowerMatchNode fun _ => True where
  keeps n h := by
    cases n with
    | dataType | matchWith => simp [coreKinds, Node.kind] at h
    | _ => rfl
  ready _ _ := trivial

section Parts

variable {tags : List (String × Nat)} {s s' : Supply}

mutual

/-- Patterns stay as they are. -/
theorem rebuild_pattern : ∀ {pat : Node}, pat.Everywhere (Node.IsTaggedPart tags) →
    pat.rebuild lowerMatchNode = pure pat
  | pat, hpat => by
    cases pat with
    | patternBinder | patternLiteral => rfl
    | patternTuple m ps | patternConstructor m c ps tag =>
      have hps := @rebuildAll_patterns ps fun q hq => hpat.child hq
      rw [Node.rebuild, hps]
      rfl
    | _ => exact hpat.here.elim

theorem rebuildAll_patterns : ∀ {pats : List Node},
    (∀ pat ∈ pats, pat.Everywhere (Node.IsTaggedPart tags)) →
      Node.rebuildAll lowerMatchNode pats = pure pats
  | [], _ => rfl
  | pat :: pats, hpats => by
    rw [Node.rebuildAll, rebuild_pattern (hpats pat List.mem_cons_self),
      rebuildAll_patterns fun q hq => hpats q (List.mem_cons_of_mem _ hq)]
    rfl

end

/-- Constructors stay as they are. -/
theorem rebuildAll_constructors {cs : List Node} (hcs : ∀ c ∈ cs, IsTaggedConstructor tags c) :
    Node.rebuildAll lowerMatchNode cs = pure cs := by
  induction cs with
  | nil => rfl
  | cons c cs ih =>
    obtain ⟨⟨m, name, parameters, tag, rfl, -⟩, hrest⟩ := List.forall_mem_cons.1 hcs
    rw [Node.rebuildAll, ih hrest]
    rfl

/-- Arms are arms behind the lowering of their parts. -/
theorem forall₂_keptArm {arms arms' : List Node} (harms : ∀ arm ∈ arms, IsTaggedArm tags arm)
    (heverywhere : ∀ arm ∈ arms, arm.Everywhere (Node.IsMatched tags))
    (h : Runs (Node.rebuildAll lowerMatchNode arms) s arms' s') :
    List.Forall₂ (KeptArm tags) arms arms' := by
  induction arms generalizing arms' s with
  | nil =>
    obtain ⟨rfl, -⟩ := runs_pure.1 h
    exact .nil
  | cons arm arms ih =>
    obtain ⟨⟨m, p, body, rfl, hp⟩, htagged⟩ := List.forall_mem_cons.1 harms
    obtain ⟨hmatched, hmatchedRest⟩ := List.forall_mem_cons.1 heverywhere
    rw [Node.rebuildAll, Node.rebuild, rebuild_pattern hp] at h
    simp only [runs_bind, runs_pure] at h
    obtain ⟨arm', s₁, ⟨_, _, ⟨rfl, rfl⟩, body', s₂, hbody, harm⟩, arms', s₃, hrest, rfl, rfl⟩ := h
    obtain ⟨rfl, rfl⟩ := runs_pure.1 harm
    exact .cons (.mk hp ⟨hmatched.child (by simp [Node.children]), s, s₂, trivial, hbody⟩)
      (ih htagged hmatchedRest hrest)

end Parts

/-! ## 2. Values -/

/-- A value of a program with data types, and the value of the lowered program. -/
inductive LoweredValue (tags : List (String × Nat)) : Value → Value → Prop where
  | word {n : Int} : LoweredValue tags (.word n) (.word n)
  | builtin {b : Builtin} : LoweredValue tags (.builtin b) (.builtin b)
  | closure {env env' : Environment} {x : String} {body body' : Node}
      (henv : EnvironmentsAgree IsProgramName (LoweredValue tags) env env')
      (hbody : LowersTo tags body body') :
      LoweredValue tags (.closure env x body) (.closure env' x body')
  | member {env env' : Environment} {functions functions' : List Node} {i : Nat}
      (henv : EnvironmentsAgree IsProgramName (LoweredValue tags) env env')
      (hfunctions : List.Forall₂ (KeptFunction (LowersTo tags)) functions functions') :
      LoweredValue tags (.member env functions i) (.member env' functions' i)
  | tuple {vs vs' : List Value} (hvs : List.Forall₂ (LoweredValue tags) vs vs') :
      LoweredValue tags (.tuple vs) (.tuple vs')
  | constant {c : String} {tag : Nat} (hc : (c, tag) ∈ tags) :
      LoweredValue tags (.data c []) (.tuple [.word tag, .word 0])
  | data {c : String} {tag : Nat} {vs vs' : List Value} (hc : (c, tag) ∈ tags) (hne : vs ≠ [])
      (hvs : List.Forall₂ (LoweredValue tags) vs vs') :
      LoweredValue tags (.data c vs) (.tuple [.word tag, .tuple vs'])
  | constructor {c : String} {tag : Nat} {vs vs' : List Value} {env : Environment} {p : Position}
      {x : String} {got rest : List String} (hc : (c, tag) ∈ tags)
      (hvs : List.Forall₂ (LoweredValue tags) vs vs') (hnames : (got ++ x :: rest).Nodup)
      (hgot : (got.map fun y => List.lookup y env) = vs'.map some) :
      LoweredValue tags (.constructor c (rest.length + 1) vs)
        (.closure env x (functions p rest
          (pair p (integer p tag) (.tuple (.at p) ((got ++ x :: rest).map (reference p))))))

variable {tags : List (String × Nat)}

theorem keepsValues_loweredValue :
    KeepsValues IsProgramName (LowersTo tags) (LoweredValue tags) where
  word _ := .word
  builtin _ := .builtin
  closure henv hbody := .closure henv hbody
  member _ henv hfunctions := .member henv hfunctions
  word?_eq _ _ h := by cases h <;> rfl

theorem keepsData_loweredValue : KeepsData tags (LoweredValue tags) where
  word h := by
    cases h
    rfl
  tuple h := by
    cases h with
    | tuple hvs => exact ⟨_, rfl, hvs⟩
  data h := by
    cases h with
    | constant hc => exact ⟨_, _, [], rfl, hc, .nil, fun h => absurd rfl h⟩
    | data hc _ hvs => exact ⟨_, _, _, rfl, hc, hvs, fun _ => rfl⟩

theorem LoweredValue.component? {v v' w : Value} {index : Nat} {arity : Option Nat}
    (h : LoweredValue tags v v') (hw : v.component? index arity = some w) :
    ∃ w', v'.component? index arity = some w' ∧ LoweredValue tags w w' := by
  cases h with
  | tuple hvs =>
    rw [Value.component?] at hw
    split at hw
    · rename_i harity
      obtain ⟨w', hw', hww'⟩ := forall₂_getElem? hvs hw
      rw [hvs.length_eq] at harity
      exact ⟨w', (if_pos harity).trans hw', hww'⟩
    · cases hw
  | _ => cases hw

/-! ## 3. Constructors -/

section Constructors

variable {K : Nat} {p : Position} {env env' : Environment}

/-- The values of variables, one after the other. -/
theorem evaluateAll_references {xs : List String} {vs : List Value}
    (h : (xs.map fun x => List.lookup x env) = vs.map some) :
    Node.evaluateAll (xs.map (reference p)) env = pure vs := by
  induction xs generalizing vs with
  | nil =>
    cases vs with
    | nil => rfl
    | cons => cases h
  | cons x xs ih =>
    cases vs with
    | nil => cases h
    | cons v vs =>
      obtain ⟨hx, hxs⟩ := List.cons.inj h
      rw [List.map_cons, evaluateAll_cons, ih hxs, reference, evaluate_reference,
        show List.lookup x env = some v from hx]
      rfl

/-- The pair of a number and the tuple of variables. -/
theorem evaluate_payload {xs : List String} {vs : List Value} (tag : Nat)
    (h : (xs.map fun x => List.lookup x env) = vs.map some) :
    (pair p (integer p tag) (.tuple (.at p) (xs.map (reference p)))).evaluate env =
      pure (.tuple [.word tag, .tuple vs]) := by
  rw [evaluate_pair, evaluate_integer, evaluate_tuple, evaluateAll_references h]
  rfl

/-- **A constructor gets one more argument.** -/
theorem simulates_call_constructor {c : String} {tag : Nat} {vs vs' : List Value} {x : String}
    {got rest : List String} {v v' : Value} (hc : (c, tag) ∈ tags)
    (hvs : List.Forall₂ (LoweredValue tags) vs vs') (hnames : (got ++ x :: rest).Nodup)
    (hgot : (got.map fun y => List.lookup y env) = vs'.map some) (hv : LoweredValue tags v v') :
    Simulates K (LoweredValue tags) (call (.constructor c (rest.length + 1) vs) v)
      (call (.closure env x (functions p rest
        (pair p (integer p tag) (.tuple (.at p) ((got ++ x :: rest).map (reference p)))))) v') := by
  rw [call_constructor, call_closure]
  refine Simulates.delays ?_ (.later _)
  have hgot' : ((got ++ [x]).map fun y => List.lookup y ((x, v') :: env)) =
      (vs' ++ [v']).map some := by
    rw [List.map_append, List.map_append, ← hgot, List.map_singleton, List.lookup_cons_self]
    refine congrArg (· ++ _) (List.map_congr_left fun y hy => lookup_cons_of_ne ?_)
    rintro rfl
    exact (List.nodup_append.1 hnames).2.2 y hy y List.mem_cons_self rfl
  have hvs' := List.rel_append hvs (.cons hv .nil)
  cases rest with
  | nil =>
    show Simulates K _ _ ((pair p _ _).evaluate _)
    rw [evaluate_payload tag hgot']
    exact .pure (.data hc (by simp) hvs')
  | cons y rest =>
    have happend : got ++ x :: y :: rest = (got ++ [x]) ++ y :: rest := List.append_cons ..
    rw [happend] at hnames ⊢
    exact .pure (.constructor hc hvs' hnames hgot')

/-- What the value of a constructor is. -/
theorem runs_constructorValue {c : String} {tag : Nat} {parameters : List TypeExpr} {s s' : Supply}
    {value : Node} (h : Runs (constructorValue p tag parameters) s value s') (hc : (c, tag) ∈ tags)
    (env : Environment) : ∃ v', value.evaluate env = pure v' ∧
      LoweredValue tags (.construct c parameters.length []) v' := by
  unfold constructorValue at h
  split at h
  · next hempty =>
    obtain ⟨rfl, -⟩ := runs_pure.1 h
    rw [List.isEmpty_iff.1 hempty]
    refine ⟨_, ?_, .constant hc⟩
    rw [evaluate_pair, evaluate_integer, evaluate_literal]
    rfl
  · next hempty =>
    simp only [runs_bind, runs_pure] at h
    obtain ⟨xs, s₁, hxs, rfl, -⟩ := h
    obtain ⟨rfl, -⟩ := runs_freshNames hxs
    have hnames := @nodup_generatedNames "a" (by decide) (s.count "a") parameters.length
    have hlength := length_generatedNames "a" (s.count "a") parameters.length
    generalize generatedNames "a" (s.count "a") parameters.length = xs at hnames hlength
    cases xs with
    | nil =>
      rw [List.eq_nil_of_length_eq_zero hlength.symm] at hempty
      exact absurd rfl hempty
    | cons x xs =>
      refine ⟨_, rfl, ?_⟩
      rw [← hlength]
      have hvalue : LoweredValue tags (.constructor c (xs.length + 1) [])
          (.closure env x (functions p xs (pair p (integer p tag)
            (.tuple (.at p) (([] ++ x :: xs).map (reference p)))))) :=
        .constructor hc .nil hnames rfl
      exact hvalue

/-- **The declaration of a data type** binds its constructors, one after the other. -/
theorem simulates_constructorValues {cs : List Node} {values : List (String × Node)}
    {body body' : Node} {s s' : Supply} (hcs : ∀ c ∈ cs, IsTaggedConstructor tags c)
    (hrun : Runs (constructorValues p cs) s values s')
    (hbody : ∀ env env', EnvironmentsAgree IsProgramName (LoweredValue tags) env env' →
      Simulates K (LoweredValue tags) (body.evaluate env) (body'.evaluate env'))
    (henv : EnvironmentsAgree IsProgramName (LoweredValue tags) env env') :
    Simulates K (LoweredValue tags) (body.evaluate (bindConstructors cs env))
      (Node.evaluate (values.foldr (fun (c, value) body => Lowering.bind p c value body) body')
        env') := by
  induction cs generalizing values s s' env env' with
  | nil =>
    rw [constructorValues, runs_pure] at hrun
    obtain ⟨rfl, -⟩ := hrun
    exact hbody env env' henv
  | cons c cs ih =>
    obtain ⟨⟨m, name, parameters, tag, rfl, hc⟩, hrest⟩ := List.forall_mem_cons.1 hcs
    simp only [constructorValues, runs_bind, runs_pure] at hrun
    obtain ⟨value, s₁, hvalue, values, s₂, hvalues, rfl, -⟩ := hrun
    obtain ⟨v', hv', hvv'⟩ := runs_constructorValue hvalue hc env'
    simp only [List.foldr_cons, evaluate_bind, hv', Computation.pure_bind]
    exact ih hrest hvalues (.bind hvv' henv)

end Constructors

/-! ## 4. Matches -/

section Matches

variable {K : Nat} {p : Position} {env env' : Environment}

/-- What trying an arm does: the function of its pattern is called with the scrutinee. -/
theorem evaluate_attempt {f : Node} {x scrutinee : String} {v : Value} (hne : scrutinee ≠ x)
    (hv : List.lookup scrutinee env = some v) (hf : ∃ y body, f = function p y body) :
    (Lowering.bind p x f (apply p (reference p x) (reference p scrutinee))).evaluate env =
      (f.evaluate env >>= fun f => call f v) := by
  obtain ⟨y, body, rfl⟩ := hf
  simp only [evaluate_bind, evaluate_apply, evaluate_function, reference, evaluate_reference,
    List.lookup_cons_self, lookup_cons_of_ne hne, hv, orWrong_some, Computation.pure_bind]

/-- **The first arm that matches decides.** Its body is evaluated where the names of its pattern are
    bound; when no arm matches, the program ends with the exit code of a match without an arm. -/
theorem simulates_firstSuccess (hnames : (tags.map Prod.fst).Nodup)
    (htags : (tags.map Prod.snd).Nodup) {arms arms' : List Node}
    (harms : List.Forall₂ (KeptArm tags) arms arms')
    (hbodies : ∀ arm ∈ arms, ∀ m q body, arm = .matchArm m q body →
      ∀ body', LowersTo tags body body' →
      ∀ env env', EnvironmentsAgree IsProgramName (LoweredValue tags) env env' →
        Simulates K (LoweredValue tags) (body.evaluate env) (body'.evaluate env'))
    {k : Nat} {tried : List (String × Node)} {s s' : Supply}
    (hrun : Runs (attempts p (generatedName "e" k) arms') s tried s')
    (henv : EnvironmentsAgree IsProgramName (LoweredValue tags) env env') {v v' : Value}
    (hv : LoweredValue tags v v') (hscrutinee : List.lookup (generatedName "e" k) env' = some v') :
    Simulates K (LoweredValue tags) (Node.evaluateArms arms env v)
      ((firstSuccess p tried).evaluate env') := by
  induction harms generalizing tried s s' env' with
  | nil =>
    rw [attempts, runs_pure] at hrun
    obtain ⟨rfl, -⟩ := hrun
    rw [evaluateArms_nil, firstSuccess, evaluate_apply, evaluate_builtin, evaluate_integer,
      Computation.pure_bind, Computation.pure_bind, call_builtin]
    exact .stop nofun
  | @cons arm arm' arms arms' harm harms ih =>
    cases harm with
    | @mk m q body body' hq hbody =>
      simp only [attempts, runs_bind, runs_pure] at hrun
      obtain ⟨result, s₁, hresult, matcher, s₂, hmatcher, f, s₃, hf, tried, s₄, htried, rfl, -⟩ :=
        hrun
      obtain ⟨rfl, -⟩ := runs_freshName hresult
      obtain ⟨rfl, -⟩ := runs_freshName hmatcher
      have htries := patternFunction_tries keepsData_loweredValue hnames htags hq hf hv henv
      rw [firstSuccess, evaluate_bind, evaluate_attempt
        (generatedName_ne (by decide) (by decide) (.inl (by decide))) hscrutinee
        (runs_patternFunction hf)]
      generalize hmatching : matchPattern env q v = matching,
        (f.evaluate env' >>= fun f => call f v') = x at htries
      -- what the pattern does decides between this arm and those behind it
      cases htries with
      | misfit =>
        rw [evaluateArms_misfit hmatching]
        exact .wrong
      | fails hx =>
        rw [evaluateArms_fails hmatching]
        refine Simulates.delays ?_ (hx.bind fun _ => .refl _)
        rw [Computation.pure_bind, evaluate_choose_failed List.lookup_cons_self, if_neg (by decide)]
        refine ih (fun a ha => hbodies a (List.mem_cons_of_mem _ ha)) htried
          (.extra (not_isProgramName_generatedName _ _) henv) ?_
        rw [lookup_cons_of_ne (generatedName_ne (by decide) (by decide) (.inl (by decide)))]
        exact hscrutinee
      | binds henv' hx =>
        rw [evaluateArms_binds hmatching]
        refine Simulates.delays ?_ (hx.bind fun _ => .refl _)
        rw [bind_bind]
        -- whatever the body gives is handed on by the test of the outcome
        have hresult : ∀ r : Value,
            (choose p (equals p (component p (generatedName "v" (s.count "v")) 0 2)
              (integer p successTag)) (component p (generatedName "v" (s.count "v")) 1 2)
                (firstSuccess p tried)).evaluate
                  ((generatedName "v" (s.count "v"), r.succeeded) :: env') = pure r := by
          intro r
          rw [evaluate_choose_succeeded List.lookup_cons_self, if_pos rfl]
          exact evaluate_component List.lookup_cons_self rfl
        simp only [Computation.pure_bind, hresult, bind_pure_self]
        exact hbodies _ List.mem_cons_self _ _ _ rfl _ hbody _ _ henv'

end Matches

/-! ## 5. Trees that belong together -/

/-- Whatever lowering makes of the tree does what the tree does. -/
def LowersFaithfully (tags : List (String × Nat)) (K : Nat) (n : Node) : Prop :=
  ∀ n', LowersTo tags n n' → ∀ env env',
    EnvironmentsAgree IsProgramName (LoweredValue tags) env env' →
      Simulates K (LoweredValue tags) (n.evaluate env) (n'.evaluate env')

section Trees

variable {K : Nat} (hnames : (tags.map Prod.fst).Nodup) (htags : (tags.map Prod.snd).Nodup)
  (hcalls : CallsSimulate (LoweredValue tags) K)

/-- The declaration of a data type. -/
theorem lowersFaithfully_dataType {m : Mark} {d : String} {cs : List Node} {body : Node}
    (hcs : ∀ c ∈ cs, IsTaggedConstructor tags c) (hbody : LowersFaithfully tags K body) :
    LowersFaithfully tags K (.dataType m d cs body) := by
  intro n' h env env' henv
  obtain ⟨heverywhere, s, s', -, hrun⟩ := h
  rw [Node.rebuild, rebuildAll_constructors hcs] at hrun
  simp only [runs_bind, runs_pure, lowerMatchNode, lowerDataType] at hrun
  obtain ⟨_, _, ⟨rfl, rfl⟩, body', s₁, hrunBody, values, s₂, hvalues, rfl, -⟩ := hrun
  have hbecomes : LowersTo tags body body' :=
    ⟨heverywhere.child (by simp [Node.children]), s, s₁, trivial, hrunBody⟩
  rw [evaluate_dataType]
  exact simulates_constructorValues hcs hvalues (hbody body' hbecomes) henv

include hnames htags in
/-- A `match` evaluates its scrutinee, and then tries its arms. -/
theorem lowersFaithfully_matchWith {m : Mark} {e : Node} {arms : List Node}
    (harms : ∀ arm ∈ arms, IsTaggedArm tags arm) (he : LowersFaithfully tags K e)
    (hbodies : ∀ arm ∈ arms, ∀ c ∈ arm.children, LowersFaithfully tags K c) :
    LowersFaithfully tags K (.matchWith m e arms) := by
  intro n' h env env' henv
  obtain ⟨heverywhere, s, s', -, hrun⟩ := h
  simp only [Node.rebuild, runs_bind, lowerMatchNode, lowerMatch, runs_pure] at hrun
  obtain ⟨e', s₁, hrunScrutinee, arms', s₂, hrunArms, x, s₃, hx, tried, s₄, htried, rfl, -⟩ := hrun
  obtain ⟨rfl, -⟩ := runs_freshName hx
  have hkept := forall₂_keptArm harms
    (fun arm harm => heverywhere.child (List.mem_cons_of_mem e harm)) hrunArms
  have hbecomes : LowersTo tags e e' :=
    ⟨heverywhere.child List.mem_cons_self, s, s₁, trivial, hrunScrutinee⟩
  rw [evaluate_matchWith, evaluate_bind]
  refine (he e' hbecomes env env' henv).bind fun v v' hv => ?_
  refine simulates_firstSuccess hnames htags hkept ?_ htried
    (.extra (not_isProgramName_generatedName _ _) henv) hv List.lookup_cons_self
  rintro _ harm m q body rfl
  exact hbodies _ harm body (by simp [Node.children])

/-- Tuples stay. -/
theorem lowersFaithfully_tuple {m : Mark} {es : List Node}
    (hes : ∀ e ∈ es, LowersFaithfully tags K e) : LowersFaithfully tags K (.tuple m es) := by
  intro n' h env env' henv
  obtain ⟨heverywhere, s, s', hs, hrun⟩ := h
  simp only [Node.rebuild, runs_bind, lowerMatchNode, runs_pure] at hrun
  obtain ⟨es', s₁, hrunElements, rfl, -⟩ := hrun
  have hall := keepsCore_lowerMatchNode.forall₂_becomes (fun e he => heverywhere.child he) hs
    hrunElements
  rw [evaluate_tuple, evaluate_tuple]
  refine (simulates_evaluateAll ?_).bind fun vs vs' hvs => .pure (.tuple hvs)
  exact ((List.forall₂_and_left _ _).2 ⟨hes, hall⟩).imp fun e e' h => h.1 e' h.2 env env' henv

/-- Projections stay. -/
theorem lowersFaithfully_projection {m : Mark} {index : Nat} {arity : Option Nat} {e : Node}
    (he : LowersFaithfully tags K e) : LowersFaithfully tags K (.projection m index arity e) := by
  intro n' h env env' henv
  obtain ⟨heverywhere, s, s', hs, hrun⟩ := h
  simp only [Node.rebuild, runs_bind, lowerMatchNode, runs_pure] at hrun
  obtain ⟨e', s₁, hrunTarget, rfl, -⟩ := hrun
  rw [evaluate_projection, evaluate_projection]
  have hbecomes : LowersTo tags e e' :=
    ⟨heverywhere.child List.mem_cons_self, s, s₁, trivial, hrunTarget⟩
  refine (he e' hbecomes env env' henv).bind fun v v' hv =>
    .orWrong fun w hw => hv.component? hw

include hnames htags hcalls in
/-- **A tree with its data types and matches lowered does what the tree does**, as long as calls do.
    The children are taken along, since a `match` evaluates the bodies of its arms. -/
theorem lowersFaithfully {n : Node} (hn : n.Everywhere (Node.IsMatched tags)) :
    LowersFaithfully tags K n ∧ ∀ c ∈ n.children, LowersFaithfully tags K c := by
  induction hn with
  | @mk n hnode _ ih =>
    refine ⟨?_, fun c hc => (ih c hc).1⟩
    cases n with
    | dataType m d cs body =>
      exact lowersFaithfully_dataType hnode (ih body (by simp [Node.children])).1
    | matchWith m e arms =>
      exact lowersFaithfully_matchWith hnames htags hnode (ih e List.mem_cons_self).1
        fun arm harm => (ih arm (List.mem_cons_of_mem e harm)).2
    | tuple m es => exact lowersFaithfully_tuple fun e he => (ih e he).1
    | projection m index arity e =>
      exact lowersFaithfully_projection (ih e List.mem_cons_self).1
    | matchArm | dataConstructor | patternBinder | patternTuple | patternLiteral
    | patternConstructor => exact fun _ _ _ _ _ => .wrong
    | indexed => exact hnode.elim
    | _ =>
      intro n' h env env' henv
      have hcore := hnode.isCore (by simp [coreKinds, Node.kind])
      exact (h.kept keepsCore_lowerMatchNode hcore).simulates keepsValues_loweredValue hcalls
        (fun c hc => (ih c hc).1) henv

include hnames htags in
/-- **Calls of functions that belong together** simulate each other. -/
theorem loweredCalls_simulate : ∀ K, CallsSimulate (LoweredValue tags) K := by
  intro K
  induction K using Nat.strongRecOn with
  | _ K ih =>
    have hbodies : ∀ J < K, ∀ body body', LowersTo tags body body' → ∀ env env',
        EnvironmentsAgree IsProgramName (LoweredValue tags) env env' →
          Simulates J (LoweredValue tags) (body.evaluate env) (body'.evaluate env') :=
      fun J hJ body body' hbody =>
        (lowersFaithfully hnames htags (ih J hJ) hbody.everywhere).1 body' hbody
    intro f f' v v' hf hv
    cases hf with
    | word =>
      rw [call_word]
      exact .wrong
    | builtin => exact simulates_call_builtin keepsValues_loweredValue _ hv
    | closure henv hbody => exact simulates_call_closure hbodies henv hbody hv
    | member henv hfunctions =>
      exact simulates_call_member hbodies keepsValues_loweredValue henv hfunctions hv
    | tuple =>
      rw [call_tuple]
      exact .wrong
    | constant | data =>
      rw [call_data]
      exact .wrong
    | constructor hc hvs hnames hgot => exact simulates_call_constructor hc hvs hnames hgot hv

end Trees

/-! ## 6. Lowering succeeds -/

section Success

variable {p : Position}

theorem exists_runs_attempts {arms arms' : List Node}
    (harms : List.Forall₂ (KeptArm tags) arms arms') (scrutinee : String) (s : Supply) :
    ∃ tried s', Runs (attempts p scrutinee arms') s tried s' := by
  induction harms generalizing s with
  | nil => exact ⟨[], s, by rw [attempts]; exact runs_pure.2 ⟨rfl, rfl⟩⟩
  | cons harm _ ih =>
    cases harm with
    | @mk m q body body' hq hbody =>
      obtain ⟨f, s₃, hf⟩ := exists_runs_patternFunction hq body' ((s.next "v").2.next "pl").2
      obtain ⟨tried, s', htried⟩ := ih s₃
      rw [attempts]
      simp only [runs_bind, runs_pure]
      exact ⟨_, _, _, _, exists_runs_freshName "v" s, _, _, exists_runs_freshName "pl" _, f, s₃, hf,
        tried, s', htried, rfl, rfl⟩

theorem exists_runs_constructorValues {cs : List Node} (hcs : ∀ c ∈ cs, IsTaggedConstructor tags c)
    (s : Supply) : ∃ values s', Runs (constructorValues p cs) s values s' := by
  induction cs generalizing s with
  | nil => exact ⟨[], s, by rw [constructorValues]; exact runs_pure.2 ⟨rfl, rfl⟩⟩
  | cons c cs ih =>
    obtain ⟨⟨m, name, parameters, tag, rfl, -⟩, hrest⟩ := List.forall_mem_cons.1 hcs
    obtain ⟨value, s₁, hvalue⟩ :
        ∃ value s₁, Runs (constructorValue p tag parameters) s value s₁ := by
      unfold constructorValue
      split
      · exact ⟨_, _, runs_pure.2 ⟨rfl, rfl⟩⟩
      · obtain ⟨s₁, hxs⟩ := exists_runs_freshNames "a" parameters.length s
        simp only [runs_bind, runs_pure]
        exact ⟨_, _, _, s₁, hxs, rfl, rfl⟩
    obtain ⟨values, s', hvalues⟩ := ih hrest s₁
    simp only [constructorValues, runs_bind, runs_pure]
    exact ⟨_, _, value, s₁, hvalue, values, s', hvalues, rfl, rfl⟩

/-- **Lowering of data types and matches succeeds** on a tree with its numbers. -/
theorem exists_runs_lowerMatches {n : Node} (hn : n.Everywhere (Node.IsMatched tags)) (s : Supply) :
    ∃ n' s', Runs n.lowerMatches s n' s' := by
  unfold Node.lowerMatches
  induction hn generalizing s with
  | @mk n hnode hchildren ih =>
    cases n with
    | dataType m d cs body =>
      obtain ⟨body', s₁, hbody⟩ := ih body (by simp [Node.children]) s
      obtain ⟨values, s₂, hvalues⟩ := exists_runs_constructorValues (p := m.position) hnode s₁
      rw [Node.rebuild, rebuildAll_constructors hnode]
      simp only [runs_bind, runs_pure, lowerMatchNode, lowerDataType]
      exact ⟨_, _, _, _, ⟨rfl, rfl⟩, body', s₁, hbody, values, s₂, hvalues, rfl, rfl⟩
    | matchWith m e arms =>
      obtain ⟨e', s₁, he⟩ := ih e List.mem_cons_self s
      obtain ⟨arms', s₂, harms⟩ :=
        @exists_runs_rebuildAll _ arms (fun a ha => ih a (List.mem_cons_of_mem e ha)) s₁
      have hkept :=
        forall₂_keptArm hnode (fun a ha => hchildren a (List.mem_cons_of_mem e ha)) harms
      obtain ⟨tried, s₃, htried⟩ := exists_runs_attempts (p := m.position) hkept
        (generatedName "e" (s₂.count "e")) (s₂.next "e").2
      simp only [Node.rebuild, runs_bind, lowerMatchNode, lowerMatch, runs_pure]
      exact ⟨_, _, e', s₁, he, arms', s₂, harms, _, _, exists_runs_freshName "e" s₂, tried, s₃,
        htried, rfl, rfl⟩
    | tuple m es | patternTuple m es | patternConstructor m _ es _ =>
      obtain ⟨es', s₁, hes⟩ := @exists_runs_rebuildAll _ es ih s
      simp only [Node.rebuild, runs_bind]
      exact ⟨_, _, es', s₁, hes, runs_pure.2 ⟨rfl, rfl⟩⟩
    | projection m _ _ e =>
      obtain ⟨e', s₁, he⟩ := ih e List.mem_cons_self s
      simp only [Node.rebuild, runs_bind]
      exact ⟨_, _, e', s₁, he, runs_pure.2 ⟨rfl, rfl⟩⟩
    | matchArm m q body =>
      obtain ⟨q', s₁, hq⟩ := ih q (by simp [Node.children]) s
      obtain ⟨body', s₂, hbody⟩ := ih body (by simp [Node.children]) s₁
      simp only [Node.rebuild, runs_bind]
      exact ⟨_, _, q', s₁, hq, body', s₂, hbody, runs_pure.2 ⟨rfl, rfl⟩⟩
    | dataConstructor | patternBinder | patternLiteral =>
      rw [Node.rebuild]
      exact ⟨_, _, runs_pure.2 ⟨rfl, rfl⟩⟩
    | indexed => exact hnode.elim
    | _ =>
      exact keepsCore_lowerMatchNode.exists_runs
        (hnode.isCore (by simp [coreKinds, Node.kind])) ih s

end Success

/-! ## 7. Programs -/

open Names

mutual

theorem RenamesPattern.everywhere : ∀ {p p' : Node} {pairs : List (String × String)},
    RenamesPattern tags p p' pairs → p'.Everywhere (Node.IsTaggedPart tags)
  | _, _, _, .binder => .mk trivial nofun
  | _, _, _, .literal => .mk trivial nofun
  | _, _, _, .tuple _ hps => .mk trivial hps.everywhere
  | _, _, _, .constructor hc hps => .mk ⟨_, rfl, hc⟩ hps.everywhere

theorem RenamesPatterns.everywhere : ∀ {ps ps' : List Node} {pairs : List (String × String)},
    RenamesPatterns tags ps ps' pairs → ∀ p' ∈ ps', p'.Everywhere (Node.IsTaggedPart tags)
  | _, _, _, .nil => nofun
  | _, _, _, .cons hp hps => List.forall_mem_cons.2 ⟨hp.everywhere, hps.everywhere⟩

end

theorem Node.IsTaggedPart.isMatched {n : Node} (h : n.IsTaggedPart tags) : n.IsMatched tags := by
  cases n with
  | patternBinder | patternTuple | patternLiteral | patternConstructor => trivial
  | _ => exact h.elim

theorem TagsConstructors.areTagged {cs cs' : List Node} {new : List (String × Nat)}
    (h : TagsConstructors cs cs' new) (hnew : ∀ entry ∈ new, entry ∈ tags) :
    ∀ c ∈ cs', IsTaggedConstructor tags c := by
  induction h with
  | nil => nofun
  | cons _ ih =>
    obtain ⟨hc, hrest⟩ := List.forall_mem_cons.1 hnew
    exact List.forall_mem_cons.2 ⟨⟨_, _, _, _, rfl, hc⟩, ih hrest⟩

mutual

/-- **A tree with its names resolved** is one that lowering is for. -/
theorem Renames.everywhere : ∀ {scope : NameScope} {n n' : Node}, Renames tags scope n n' →
    n'.Everywhere (Node.IsMatched tags)
  | _, _, _, .literal | _, _, _, .builtin => .mk trivial nofun
  | _, _, _, .reference _ hplain => .mk hplain nofun
  | _, _, _, .lambda _ hbody => .mk trivial (List.forall_mem_singleton.2 hbody.everywhere)
  | _, _, _, .application hf ha =>
    .mk trivial (List.forall_mem_cons.2 ⟨hf.everywhere, List.forall_mem_singleton.2 ha.everywhere⟩)
  | _, _, _, .letIn hvalue _ hbody =>
    .mk trivial (List.forall_mem_cons.2
      ⟨hvalue.everywhere, List.forall_mem_singleton.2 hbody.everywhere⟩)
  | _, _, _, .letRec _ _ harms hbody =>
    .mk (fun a ha => (harms.everywhere a ha).1) (List.forall_mem_append.2
      ⟨fun a ha => (harms.everywhere a ha).2, List.forall_mem_singleton.2 hbody.everywhere⟩)
  | _, _, _, .conditional hc ht he =>
    .mk trivial (List.forall_mem_cons.2 ⟨hc.everywhere, List.forall_mem_cons.2
      ⟨ht.everywhere, List.forall_mem_singleton.2 he.everywhere⟩⟩)
  | _, _, _, .binary hl hr =>
    .mk trivial (List.forall_mem_cons.2 ⟨hl.everywhere, List.forall_mem_singleton.2 hr.everywhere⟩)
  | _, _, _, .unary he => .mk trivial (List.forall_mem_singleton.2 he.everywhere)
  | _, _, _, .sequence _ hes => .mk trivial hes.everywhere
  | _, _, _, .tuple _ hes => .mk trivial hes.everywhere
  | _, _, _, .projection he => .mk trivial (List.forall_mem_singleton.2 he.everywhere)
  | _, _, _, .dataType hcs hnew _ hbody => by
    have htagged := hcs.areTagged hnew
    refine .mk htagged (List.forall_mem_append.2
      ⟨fun c hc => ?_, List.forall_mem_singleton.2 hbody.everywhere⟩)
    obtain ⟨m, name, parameters, tag, rfl, -⟩ := htagged c hc
    exact .mk trivial nofun
  | _, _, _, .matchWith he harms =>
    .mk (fun a ha => (harms.everywhere a ha).1)
      (List.forall_mem_cons.2 ⟨he.everywhere, fun a ha => (harms.everywhere a ha).2⟩)

theorem RenamesAll.everywhere : ∀ {scope : NameScope} {ns ns' : List Node},
    RenamesAll tags scope ns ns' → ∀ n' ∈ ns', n'.Everywhere (Node.IsMatched tags)
  | _, _, _, .nil => nofun
  | _, _, _, .cons hn hns => List.forall_mem_cons.2 ⟨hn.everywhere, hns.everywhere⟩

theorem RenamesGroup.everywhere : ∀ {scope : NameScope} {pairs : List (String × String)}
    {ns ns' : List Node}, RenamesGroup tags scope pairs ns ns' →
      ∀ n' ∈ ns', n'.kind = .letRecArm ∧ n'.Everywhere (Node.IsMatched tags)
  | _, _, _, _, .nil => nofun
  | _, _, _, _, .cons _ hbody hrest => List.forall_mem_cons.2
    ⟨⟨rfl, .mk trivial (List.forall_mem_singleton.2 hbody.everywhere)⟩, hrest.everywhere⟩

theorem RenamesArms.everywhere : ∀ {scope : NameScope} {ns ns' : List Node},
    RenamesArms tags scope ns ns' →
      ∀ n' ∈ ns', IsTaggedArm tags n' ∧ n'.Everywhere (Node.IsMatched tags)
  | _, _, _, .nil => nofun
  | _, _, _, .cons hp _ _ hbody hrest => List.forall_mem_cons.2
    ⟨⟨⟨_, _, _, rfl, hp.everywhere⟩, .mk trivial (List.forall_mem_cons.2
      ⟨hp.everywhere.imp fun _ => Node.IsTaggedPart.isMatched,
        List.forall_mem_singleton.2 hbody.everywhere⟩)⟩, hrest.everywhere⟩

end

theorem RenamesProgram.everywhere {n named : Node} (h : RenamesProgram tags n named) :
    named.Everywhere (Node.IsMatched tags) := by
  cases h with
  | mk he => exact .mk trivial (List.forall_mem_singleton.2 he.everywhere)

/-- **Lowering of data types and matches keeps what a program does.** It succeeds on every program
    with its names resolved, and the program that it gives does what the program does, when that
    does not go wrong; values of data types are represented by the numbers that resolution gave to
    their constructors, each constructor its own. -/
theorem IsProgram.lowerMatches_simulates {n named : Node} (hn : IsProgram n)
    (h : n.resolveNames = .ok named) :
    ∃ tags lowered s', (tags.map Prod.fst).Nodup ∧ (tags.map Prod.snd).Nodup ∧
      RenamesProgram tags n named ∧ Runs named.lowerMatches .empty lowered s' ∧
        ∀ K, Simulates K (LoweredValue tags) (named.evaluate []) (lowered.evaluate []) := by
  obtain ⟨tags, hnames, htags, hrenames, -⟩ := hn.resolveNames_ok h
  have heverywhere := hrenames.everywhere
  obtain ⟨lowered, s', hrun⟩ := exists_runs_lowerMatches heverywhere .empty
  have hlowered : LowersTo tags named lowered := ⟨heverywhere, .empty, s', trivial, hrun⟩
  exact ⟨tags, lowered, s', hnames, htags, hrenames, hrun, fun K =>
    (lowersFaithfully hnames htags (loweredCalls_simulate hnames htags K) heverywhere).1 lowered
      hlowered [] [] .nil⟩

/-- A program with a nested pattern:
    `data T = A | B (int, T); match B (7, A) { A -> 0, B (x, A) -> x }`, where the constructor `B`
    has two parameters. -/
def nestedMatch : Node :=
  let m : Mark := default
  .top m (.dataType m "T"
    [.dataConstructor m "A" [] none, .dataConstructor m "B" [.base .int, .named "T"] none]
    (.matchWith m
      (.application m (.application m (.reference m "B") (.literal m (.integer 7)))
        (.reference m "A"))
      [.matchArm m (.patternConstructor m "A" [] none) (.literal m (.integer 0)),
        .matchArm m (.patternConstructor m "B"
          [.patternBinder m "x", .patternConstructor m "A" [] none] none) (.reference m "x")]))

theorem isProgram_nestedMatch : IsProgram nestedMatch := by
  have hA : IsWord "A" := by decide +kernel
  have hB : IsWord "B" := by decide +kernel
  have hx : IsWord "x" := by decide +kernel
  have hpatA : ∀ m, IsPattern (.patternConstructor m "A" [] none) := fun m => .constructor hA nofun
  refine .mk (.dataType ?_ (.matchWith (.application (.application (.reference hB) .literal)
    (.reference hA)) ?_))
  · exact List.forall_mem_cons.2 ⟨.mk hA, List.forall_mem_singleton.2 (.mk hB)⟩
  · exact List.forall_mem_cons.2 ⟨.mk (hpatA _) .literal, List.forall_mem_singleton.2
      (.mk (.constructor hB (List.forall_mem_cons.2 ⟨.binder hx, List.forall_mem_singleton.2
        (hpatA _)⟩)) (.reference hx))⟩

theorem lowerMatches_simulates_nestedMatch :
    IsProgram nestedMatch ∧ ∃ named, nestedMatch.resolveNames = .ok named ∧
      ∃ tags lowered s', (tags.map Prod.fst).Nodup ∧ (tags.map Prod.snd).Nodup ∧
        RenamesProgram tags nestedMatch named ∧ Runs named.lowerMatches .empty lowered s' ∧
          ∀ K, Simulates K (LoweredValue tags) (named.evaluate []) (lowered.evaluate []) := by
  have h : (do
      let named ← nestedMatch.resolveNames
      return named.kind) = .ok .top := by decide +kernel
  obtain ⟨named, hnamed, -⟩ := bind_ok_iff.1 h
  exact ⟨isProgram_nestedMatch, named, hnamed,
    isProgram_nestedMatch.lowerMatches_simulates hnamed⟩

end ClosureML
