import ClosureML.Proofs.Names.Numbered
import ClosureML.Proofs.Semantics.Simulation
import ClosureML.Proofs.Syntax.Declarations

/-!
# What lowering leaves as it is

Lowering rebuilds a tree from its leaves upward, and most constructs stay what they are. Where it
puts names of its own around a tree, the environment has more bindings than that of the tree before,
under names that the tree does not use.

* `EnvironmentsAgree`: the second environment binds what the first one binds, and perhaps more;
* `callAll`: the call of a function with several arguments, one after the other.

Main statements: `EnvironmentsAgree.lookup`, `Kept.simulates` (the constructs that lowering keeps)
and `delays_callAll` (a function of several arguments).
-/

namespace ClosureML

open ClosureML.Computation Lowering

/-! ## 1. Rebuilding -/

section Rebuild

open Node

variable {ε σ : Type} {f : Node → EStateM ε σ Node} {R : σ → σ → Prop}

mutual

/-- What every change of a node does to the state, rebuilding does. -/
theorem Node.rebuild_state (hrefl : ∀ s, R s s) (htrans : ∀ {s s₁ s'}, R s s₁ → R s₁ s' → R s s')
    (hf : ∀ {n s n' s'}, Runs (f n) s n' s' → R s s') :
    ∀ {n : Node} {s : σ} {n' : Node} {s' : σ}, Runs (n.rebuild f) s n' s' → R s s'
  | .literal .., _, _, _, h | .reference .., _, _, _, h | .builtin .., _, _, _, h
  | .dataConstructor .., _, _, _, h | .patternBinder .., _, _, _, h
  | .patternLiteral .., _, _, _, h | .indexed .., _, _, _, h => hf h
  | .top .., _, _, _, h | .lambda .., _, _, _, h | .letRecArm .., _, _, _, h
  | .unary .., _, _, _, h | .projection .., _, _, _, h => by
    simp only [rebuild, runs_bind] at h
    obtain ⟨_, _, h₁, h⟩ := h
    exact htrans (rebuild_state hrefl htrans hf h₁) (hf h)
  | .application .., _, _, _, h | .letIn .., _, _, _, h | .binary .., _, _, _, h
  | .matchArm .., _, _, _, h => by
    simp only [rebuild, runs_bind] at h
    obtain ⟨_, _, h₁, _, _, h₂, h⟩ := h
    exact htrans (rebuild_state hrefl htrans hf h₁)
      (htrans (rebuild_state hrefl htrans hf h₂) (hf h))
  | .conditional .., _, _, _, h => by
    simp only [rebuild, runs_bind] at h
    obtain ⟨_, _, h₁, _, _, h₂, _, _, h₃, h⟩ := h
    exact htrans (rebuild_state hrefl htrans hf h₁)
      (htrans (rebuild_state hrefl htrans hf h₂)
        (htrans (rebuild_state hrefl htrans hf h₃) (hf h)))
  | .letRec .., _, _, _, h | .dataType .., _, _, _, h => by
    simp only [rebuild, runs_bind] at h
    obtain ⟨_, _, h₁, _, _, h₂, h⟩ := h
    exact htrans (rebuildAll_state hrefl htrans hf h₁)
      (htrans (rebuild_state hrefl htrans hf h₂) (hf h))
  | .matchWith .., _, _, _, h => by
    simp only [rebuild, runs_bind] at h
    obtain ⟨_, _, h₁, _, _, h₂, h⟩ := h
    exact htrans (rebuild_state hrefl htrans hf h₁)
      (htrans (rebuildAll_state hrefl htrans hf h₂) (hf h))
  | .sequence .., _, _, _, h | .tuple .., _, _, _, h | .patternTuple .., _, _, _, h
  | .patternConstructor .., _, _, _, h => by
    simp only [rebuild, runs_bind] at h
    obtain ⟨_, _, h₁, h⟩ := h
    exact htrans (rebuildAll_state hrefl htrans hf h₁) (hf h)

theorem Node.rebuildAll_state (hrefl : ∀ s, R s s)
    (htrans : ∀ {s s₁ s'}, R s s₁ → R s₁ s' → R s s')
    (hf : ∀ {n s n' s'}, Runs (f n) s n' s' → R s s') :
    ∀ {ns : List Node} {s : σ} {ns' : List Node} {s' : σ}, Runs (rebuildAll f ns) s ns' s' → R s s'
  | [], s, _, _, h => (runs_pure.1 h).2 ▸ hrefl s
  | _ :: _, _, _, _, h => by
    simp only [rebuildAll, runs_bind, runs_pure] at h
    obtain ⟨_, _, h₁, _, _, h₂, -, rfl⟩ := h
    exact htrans (rebuild_state hrefl htrans hf h₁) (rebuildAll_state hrefl htrans hf h₂)

end

end Rebuild

/-! ## 2. Environments that belong together -/

/-- **Environments that belong together**: in between, the second binds names that are not `old`. -/
inductive EnvironmentsAgree (old : String → Prop) (V : Value → Value → Prop) :
    Environment → Environment → Prop where
  | nil : EnvironmentsAgree old V [] []
  | bind {x : String} {v v' : Value} {env env' : Environment} (hv : V v v')
      (henv : EnvironmentsAgree old V env env') :
      EnvironmentsAgree old V ((x, v) :: env) ((x, v') :: env')
  | extra {y : String} {v' : Value} {env env' : Environment} (hy : ¬ old y)
      (henv : EnvironmentsAgree old V env env') : EnvironmentsAgree old V env ((y, v') :: env')

namespace EnvironmentsAgree

variable {old : String → Prop} {V : Value → Value → Prop} {env env' : Environment}

/-- **What is bound to an old name** in the first environment, is bound to it in the second. -/
theorem lookup (h : EnvironmentsAgree old V env env') {x : String} (hx : old x) {v : Value}
    (hv : env.lookup x = some v) : ∃ v', env'.lookup x = some v' ∧ V v v' := by
  induction h with
  | nil => cases hv
  | @bind y w w' env env' hw _ ih =>
    by_cases hxy : x = y
    · subst hxy
      rw [List.lookup_cons_self] at hv ⊢
      cases hv
      exact ⟨w', rfl, hw⟩
    · rw [lookup_cons_of_ne hxy] at hv ⊢
      exact ih hv
  | @extra y _ _ _ hy _ ih =>
    have hne : x ≠ y := by
      rintro rfl
      exact hy hx
    rw [lookup_cons_of_ne hne]
    exact ih hv

end EnvironmentsAgree

/-! ## 3. Constructs that stay -/

/-- The core constructs, which every lowering keeps. The references are `old` names, and a group has
    functions only. -/
def Node.IsCore (old : String → Prop) : Node → Prop
  | .reference _ x => old x
  | .letRec _ arms _ => ∀ arm ∈ arms, arm.kind = .letRecArm
  | .top .. | .literal .. | .builtin .. | .lambda .. | .application .. | .letIn .. | .letRecArm ..
  | .conditional .. | .binary .. | .unary .. | .sequence .. => True
  | _ => False

/-- A function of a group, over a body that belongs to the one before. -/
inductive KeptFunction (R : Node → Node → Prop) : Node → Node → Prop where
  | mk {m : Mark} {f x : String} {pa ra : Option TypeExpr} {body body' : Node}
      (hbody : R body body') :
      KeptFunction R (.letRecArm m f x pa ra body) (.letRecArm m f x pa ra body')

/-- The same core construct, over parts that belong together. -/
inductive Kept (old : String → Prop) (R : Node → Node → Prop) : Node → Node → Prop where
  | top {m : Mark} {e e' : Node} (he : R e e') : Kept old R (.top m e) (.top m e')
  | literal {m : Mark} {l : Literal} : Kept old R (.literal m l) (.literal m l)
  | reference {m : Mark} {x : String} (hx : old x) : Kept old R (.reference m x) (.reference m x)
  | builtin {m : Mark} {b : Builtin} : Kept old R (.builtin m b) (.builtin m b)
  | lambda {m : Mark} {x : String} {a : Option TypeExpr} {body body' : Node}
      (hbody : R body body') :
      Kept old R (.lambda m x a body) (.lambda m x a body')
  | application {m : Mark} {f f' a a' : Node} (hf : R f f') (ha : R a a') :
      Kept old R (.application m f a) (.application m f' a')
  | letIn {m : Mark} {x : String} {a : Option TypeExpr} {value value' body body' : Node}
      (hvalue : R value value') (hbody : R body body') :
      Kept old R (.letIn m x a value body) (.letIn m x a value' body')
  | letRec {m : Mark} {arms arms' : List Node} {body body' : Node}
      (harms : List.Forall₂ (KeptFunction R) arms arms') (hbody : R body body') :
      Kept old R (.letRec m arms body) (.letRec m arms' body')
  | function {n n' : Node} (h : KeptFunction R n n') : Kept old R n n'
  | conditional {m : Mark} {c c' t t' e e' : Node} (hc : R c c') (ht : R t t') (he : R e e') :
      Kept old R (.conditional m c t e) (.conditional m c' t' e')
  | binary {m : Mark} {o : BinaryOperator} {l l' r r' : Node} (hl : R l l') (hr : R r r') :
      Kept old R (.binary m o l r) (.binary m o l' r')
  | unary {m : Mark} {o : UnaryOperator} {e e' : Node} (he : R e e') :
      Kept old R (.unary m o e) (.unary m o e')
  | sequence {m : Mark} {es es' : List Node} (hes : List.Forall₂ R es es') :
      Kept old R (.sequence m es) (.sequence m es')

/-- What is kept of values: words and builtins are the same, and functions are kept whose bodies and
    environments belong together. -/
structure KeepsValues (old : String → Prop) (R : Node → Node → Prop) (V : Value → Value → Prop) :
    Prop where
  word : ∀ n, V (.word n) (.word n)
  builtin : ∀ b, V (.builtin b) (.builtin b)
  closure : ∀ {env env' x body body'}, EnvironmentsAgree old V env env' → R body body' →
    V (.closure env x body) (.closure env' x body')
  member : ∀ {env env' functions functions'} (i : Nat), EnvironmentsAgree old V env env' →
    List.Forall₂ (KeptFunction R) functions functions' →
      V (.member env functions i) (.member env' functions' i)
  word?_eq : ∀ v v', V v v' → v.word? = v'.word?

section Constructs

variable {K : Nat} {old : String → Prop} {R : Node → Node → Prop} {V : Value → Value → Prop}
  {env env' : Environment}

theorem bindMembers_agree (hV : KeepsValues old R V) {outer outer' : Environment}
    {functions functions' rest rest' : List Node} (houter : EnvironmentsAgree old V outer outer')
    (hfunctions : List.Forall₂ (KeptFunction R) functions functions')
    (hrest : List.Forall₂ (KeptFunction R) rest rest') (i : Nat)
    (henv : EnvironmentsAgree old V env env') :
    EnvironmentsAgree old V (bindMembers outer functions i rest env)
      (bindMembers outer' functions' i rest' env') := by
  induction hrest generalizing i env env' with
  | nil => exact henv
  | cons h _ ih =>
    cases h with
    | mk => exact ih (i + 1) (.bind (hV.member i houter hfunctions) henv)

/-- The environments inside a group that is kept. -/
theorem bindGroup_agree (hV : KeepsValues old R V) {functions functions' : List Node}
    (henv : EnvironmentsAgree old V env env')
    (hfunctions : List.Forall₂ (KeptFunction R) functions functions') :
    EnvironmentsAgree old V (bindGroup env functions) (bindGroup env' functions') :=
  bindMembers_agree hV henv hfunctions hfunctions 0 henv

/-- **A core construct does what it did**, when its parts do. -/
theorem Kept.simulates {n n' : Node} (h : Kept old R n n') (hV : KeepsValues old R V)
    (hcalls : CallsSimulate V K)
    (hchildren : ∀ c ∈ n.children, ∀ c', R c c' → ∀ env env', EnvironmentsAgree old V env env' →
      Simulates K V (c.evaluate env) (c'.evaluate env'))
    (henv : EnvironmentsAgree old V env env') :
    Simulates K V (n.evaluate env) (n'.evaluate env') := by
  cases h with
  | top he => exact hchildren _ (by simp [Node.children]) _ he _ _ henv
  | literal => exact .pure (hV.word _)
  | reference hx => exact .orWrong fun _ hv => henv.lookup hx hv
  | builtin => exact .pure (hV.builtin _)
  | lambda hbody => exact .pure (hV.closure henv hbody)
  | application hf ha =>
    rw [evaluate_application, evaluate_application]
    refine (hchildren _ (by simp [Node.children]) _ hf _ _ henv).bind fun f f' hff => ?_
    exact (hchildren _ (by simp [Node.children]) _ ha _ _ henv).bind fun v v' hv =>
      hcalls f f' v v' hff hv
  | letIn hvalue hbody =>
    rw [evaluate_letIn, evaluate_letIn]
    refine (hchildren _ (by simp [Node.children]) _ hvalue _ _ henv).bind fun v v' hv => ?_
    exact hchildren _ (by simp [Node.children]) _ hbody _ _ (.bind hv henv)
  | letRec harms hbody =>
    rw [evaluate_letRec, evaluate_letRec]
    exact hchildren _ (by simp [Node.children]) _ hbody _ _ (bindGroup_agree hV henv harms)
  | function h =>
    cases h with
    | mk => exact .wrong
  | conditional hc ht he =>
    rw [evaluate_conditional, evaluate_conditional]
    exact .branch hV.word?_eq (hchildren _ (by simp [Node.children]) _ hc _ _ henv)
      (hchildren _ (by simp [Node.children]) _ ht _ _ henv)
      (hchildren _ (by simp [Node.children]) _ he _ _ henv)
  | binary hl hr =>
    rw [evaluate_binary, evaluate_binary]
    exact .operate₂ hV.word?_eq hV.word _ (hchildren _ (by simp [Node.children]) _ hl _ _ henv)
      (hchildren _ (by simp [Node.children]) _ hr _ _ henv)
  | unary he =>
    rw [evaluate_unary, evaluate_unary]
    exact .operate₁ hV.word?_eq hV.word _ (hchildren _ (by simp [Node.children]) _ he _ _ henv)
  | @sequence m es es' hes =>
    rw [evaluate_sequence, evaluate_sequence]
    refine (simulates_evaluateAll ?_).bind fun vs vs' hvs =>
      .pure (forall₂_getLastD hvs (hV.word 0))
    have hmem := (List.forall₂_and_left _ _).2 ⟨fun e (he : e ∈ es) => he, hes⟩
    exact hmem.imp fun e e' h => hchildren e h.1 e' h.2 _ _ henv

/-- A builtin does the same with values that belong together. -/
theorem simulates_call_builtin (hV : KeepsValues old R V) (b : Builtin) {v v' : Value}
    (hv : V v v') : Simulates K V (call (.builtin b) v) (call (.builtin b) v') := by
  rw [call_builtin, call_builtin, hV.word?_eq v v' hv]
  exact .perform (hV.word 0) b

section Calls

variable (hbodies : ∀ J < K, ∀ body body', R body body' → ∀ env env',
  EnvironmentsAgree old V env env' →
    Simulates J V (body.evaluate env) (body'.evaluate env'))

include hbodies

/-- A function does the same with values that belong together. -/
theorem simulates_call_closure {x : String} {body body' : Node} {v v' : Value}
    (henv : EnvironmentsAgree old V env env') (hbody : R body body') (hv : V v v') :
    Simulates K V (call (.closure env x body) v) (call (.closure env' x body') v') := by
  rw [call_closure, call_closure]
  exact .later fun J hJ => hbodies J hJ _ _ hbody _ _ (.bind hv henv)

/-- A member of a group does the same with values that belong together. -/
theorem simulates_call_member (hV : KeepsValues old R V) {functions functions' : List Node}
    {i : Nat} {v v' : Value} (henv : EnvironmentsAgree old V env env')
    (hfunctions : List.Forall₂ (KeptFunction R) functions functions') (hv : V v v') :
    Simulates K V (call (.member env functions i) v) (call (.member env' functions' i) v') := by
  cases hn : functions[i]? with
  | none =>
    rw [call_member_none hn]
    exact .wrong
  | some n =>
    obtain ⟨n', hn', hkept⟩ := forall₂_getElem? hfunctions hn
    cases hkept with
    | mk hbody =>
      rw [call_member hn, call_member hn']
      exact .later fun J hJ => hbodies J hJ _ _ hbody _ _
        (.bind hv (bindGroup_agree hV henv hfunctions))

end Calls

end Constructs

/-! ## 4. Passes -/

/-- The kinds of core constructs. -/
def coreKinds : List Kind :=
  [.top, .literal, .reference, .builtin, .lambda, .application, .letIn, .letRec, .letRecArm,
    .conditional, .binary, .unary, .sequence]

/-- A pass that rebuilds trees with names from a supply, and leaves core constructs as they are. A
    supply that is `ready` for it stays so. -/
structure KeepsCore (f : Node → Lower Node) (ready : Supply → Prop) : Prop where
  keeps : ∀ n : Node, n.kind ∈ coreKinds → f n = pure n
  ready : ∀ {n : Node} {s : Supply} {n' : Node} {s' : Supply}, Runs (f n) s n' s' →
    ready s → ready s'

/-- What a pass makes of a tree all of whose nodes have a property, with a supply that is
    `ready`. -/
structure Becomes (f : Node → Lower Node) (p : Node → Prop) (ready : Supply → Prop) (n n' : Node) :
    Prop where
  everywhere : n.Everywhere p
  runs : ∃ s s', ready s ∧ Runs (n.rebuild f) s n' s'

section Passes

variable {f : Node → Lower Node} {p : Node → Prop} {old : String → Prop}
  {ready : Supply → Prop} {s s' : Supply} {n n' : Node}

theorem KeepsCore.ready_rebuild (hf : KeepsCore f ready) (h : Runs (n.rebuild f) s n' s') :
    ready s → ready s' :=
  Node.rebuild_state (R := fun s s' => ready s → ready s') (fun _ => id) (fun h h' => h' ∘ h)
    hf.ready h

theorem KeepsCore.ready_rebuildAll (hf : KeepsCore f ready) {ns ns' : List Node}
    (h : Runs (Node.rebuildAll f ns) s ns' s') : ready s → ready s' :=
  Node.rebuildAll_state (R := fun s s' => ready s → ready s') (fun _ => id) (fun h h' => h' ∘ h)
    hf.ready h

/-- Trees that are rebuilt one after the other. -/
theorem KeepsCore.forall₂_becomes (hf : KeepsCore f ready) {ns ns' : List Node}
    (hns : ∀ n ∈ ns, n.Everywhere p) (hs : ready s) (h : Runs (Node.rebuildAll f ns) s ns' s') :
    List.Forall₂ (Becomes f p ready) ns ns' := by
  induction ns generalizing ns' s with
  | nil =>
    obtain ⟨rfl, -⟩ := runs_pure.1 h
    exact .nil
  | cons n ns ih =>
    obtain ⟨hn, hns⟩ := List.forall_mem_cons.1 hns
    simp only [Node.rebuildAll, runs_bind, runs_pure] at h
    obtain ⟨n', s₁, h₁, ns', s₂, h₂, rfl, rfl⟩ := h
    exact .cons ⟨hn, s, s₁, hs, h₁⟩ (ih hns (hf.ready_rebuild h₁ hs) h₂)

/-- A function of a group becomes a function of a group. -/
theorem Becomes.keptFunction (hf : KeepsCore f ready) (hn : n.kind = .letRecArm)
    (h : Becomes f p ready n n') : KeptFunction (Becomes f p ready) n n' := by
  obtain ⟨heverywhere, s, s', hs, h⟩ := h
  cases n with
  | letRecArm m x y pa ra body =>
    simp only [Node.rebuild, runs_bind] at h
    obtain ⟨body', s₁, hbody, h⟩ := h
    rw [hf.keeps _ (by simp [coreKinds, Node.kind]), runs_pure] at h
    obtain ⟨rfl, rfl⟩ := h
    exact .mk ⟨heverywhere.child (by simp [Node.children]), s, s₁, hs, hbody⟩
  | _ => cases hn

/-- **A core construct becomes the same construct**, over what its parts become. -/
theorem Becomes.kept (hf : KeepsCore f ready) (hcore : n.IsCore old) (h : Becomes f p ready n n') :
    Kept old (Becomes f p ready) n n' := by
  obtain ⟨hn, s, s', hs, h⟩ := h
  have child : ∀ {c c' t t'}, c ∈ n.children → ready t → Runs (c.rebuild f) t c' t' →
      Becomes f p ready c c' := fun hc ht hrun => ⟨hn.child hc, _, _, ht, hrun⟩
  -- the pass leaves a core node alone, so that only its children have changed
  have keeps : ∀ {m : Node} {t}, m.kind ∈ coreKinds → Runs (f m) t n' s' → n' = m := by
    intro m t hm hrun
    rw [hf.keeps m hm, runs_pure] at hrun
    exact hrun.1.symm
  cases n with
  | literal =>
    rw [keeps (by simp [coreKinds, Node.kind]) h]
    exact .literal
  | reference =>
    rw [keeps (by simp [coreKinds, Node.kind]) h]
    exact .reference hcore
  | builtin =>
    rw [keeps (by simp [coreKinds, Node.kind]) h]
    exact .builtin
  | top m e =>
    simp only [Node.rebuild, runs_bind] at h
    obtain ⟨e', s₁, he, h⟩ := h
    rw [keeps (by simp [coreKinds, Node.kind]) h]
    exact .top (child (by simp [Node.children]) hs he)
  | lambda m x a body =>
    simp only [Node.rebuild, runs_bind] at h
    obtain ⟨body', s₁, hbody, h⟩ := h
    rw [keeps (by simp [coreKinds, Node.kind]) h]
    exact .lambda (child (by simp [Node.children]) hs hbody)
  | application m g e =>
    simp only [Node.rebuild, runs_bind] at h
    obtain ⟨g', s₁, hg, e', s₂, he, h⟩ := h
    rw [keeps (by simp [coreKinds, Node.kind]) h]
    exact .application (child (by simp [Node.children]) hs hg)
      (child (by simp [Node.children]) (hf.ready_rebuild hg hs) he)
  | letIn m x a value body =>
    simp only [Node.rebuild, runs_bind] at h
    obtain ⟨value', s₁, hvalue, body', s₂, hbody, h⟩ := h
    rw [keeps (by simp [coreKinds, Node.kind]) h]
    exact .letIn (child (by simp [Node.children]) hs hvalue)
      (child (by simp [Node.children]) (hf.ready_rebuild hvalue hs) hbody)
  | letRec m arms body =>
    simp only [Node.rebuild, runs_bind] at h
    obtain ⟨arms', s₁, harms, body', s₂, hbody, h⟩ := h
    rw [keeps (by simp [coreKinds, Node.kind]) h]
    refine .letRec ?_ (child (by simp [Node.children]) (hf.ready_rebuildAll harms hs) hbody)
    refine ((List.forall₂_and_left _ _).2 ⟨hcore, ?_⟩).imp fun a a' h =>
      Becomes.keptFunction hf h.1 h.2
    exact hf.forall₂_becomes (fun a ha => hn.child (by simp [Node.children, ha])) hs harms
  | letRecArm m x y pa ra body =>
    exact .function (Becomes.keptFunction hf rfl ⟨hn, s, s', hs, h⟩)
  | conditional m c t e =>
    simp only [Node.rebuild, runs_bind] at h
    obtain ⟨c', s₁, hc, t', s₂, ht, e', s₃, he, h⟩ := h
    rw [keeps (by simp [coreKinds, Node.kind]) h]
    exact .conditional (child (by simp [Node.children]) hs hc)
      (child (by simp [Node.children]) (hf.ready_rebuild hc hs) ht)
      (child (by simp [Node.children]) (hf.ready_rebuild ht (hf.ready_rebuild hc hs)) he)
  | binary m o l r =>
    simp only [Node.rebuild, runs_bind] at h
    obtain ⟨l', s₁, hl, r', s₂, hr, h⟩ := h
    rw [keeps (by simp [coreKinds, Node.kind]) h]
    exact .binary (child (by simp [Node.children]) hs hl)
      (child (by simp [Node.children]) (hf.ready_rebuild hl hs) hr)
  | unary m o e =>
    simp only [Node.rebuild, runs_bind] at h
    obtain ⟨e', s₁, he, h⟩ := h
    rw [keeps (by simp [coreKinds, Node.kind]) h]
    exact .unary (child (by simp [Node.children]) hs he)
  | sequence m es =>
    simp only [Node.rebuild, runs_bind] at h
    obtain ⟨es', s₁, hes, h⟩ := h
    rw [keeps (by simp [coreKinds, Node.kind]) h]
    exact .sequence (hf.forall₂_becomes (fun e he => hn.child (by simp [Node.children, he])) hs hes)
  | _ => exact hcore.elim

/-! A pass gives something for a tree, when it does for the parts of it. -/

theorem exists_runs_rebuildAll {ns : List Node}
    (h : ∀ n ∈ ns, ∀ s, ∃ n' s', Runs (n.rebuild f) s n' s') (s : Supply) :
    ∃ ns' s', Runs (Node.rebuildAll f ns) s ns' s' := by
  induction ns generalizing s with
  | nil => exact ⟨[], s, runs_pure.2 ⟨rfl, rfl⟩⟩
  | cons n ns ih =>
    obtain ⟨hn, hns⟩ := List.forall_mem_cons.1 h
    obtain ⟨n', s₁, h₁⟩ := hn s
    obtain ⟨ns', s₂, h₂⟩ := ih hns s₁
    simp only [Node.rebuildAll, runs_bind, runs_pure]
    exact ⟨_, _, n', s₁, h₁, ns', s₂, h₂, rfl, rfl⟩

theorem KeepsCore.exists_runs (hf : KeepsCore f ready) (hcore : n.IsCore old)
    (h : ∀ c ∈ n.children, ∀ s, ∃ c' s', Runs (c.rebuild f) s c' s') (s : Supply) :
    ∃ n' s', Runs (n.rebuild f) s n' s' := by
  have keeps : ∀ {m : Node} {t}, m.kind ∈ coreKinds → Runs (f m) t m t := by
    intro m t hm
    rw [hf.keeps m hm, runs_pure]
    exact ⟨rfl, rfl⟩
  cases n with
  | literal | reference | builtin => exact ⟨_, _, keeps (by simp [coreKinds, Node.kind])⟩
  | top m e | lambda m _ _ e | letRecArm m _ _ _ _ e | unary m _ e =>
    obtain ⟨e', s₁, he⟩ := h e (by simp [Node.children]) s
    simp only [Node.rebuild, runs_bind]
    exact ⟨_, _, e', s₁, he, keeps (by simp [coreKinds, Node.kind])⟩
  | application m a b | letIn m _ _ a b | binary m _ a b =>
    obtain ⟨a', s₁, ha⟩ := h a (by simp [Node.children]) s
    obtain ⟨b', s₂, hb⟩ := h b (by simp [Node.children]) s₁
    simp only [Node.rebuild, runs_bind]
    exact ⟨_, _, a', s₁, ha, b', s₂, hb, keeps (by simp [coreKinds, Node.kind])⟩
  | letRec m arms body =>
    have harm : ∀ a ∈ arms, ∀ s, ∃ a' s', Runs (a.rebuild f) s a' s' := fun a ha =>
      h a (by simp [Node.children, ha])
    obtain ⟨arms', s₁, harms⟩ := exists_runs_rebuildAll harm s
    obtain ⟨body', s₂, hbody⟩ := h body (by simp [Node.children]) s₁
    simp only [Node.rebuild, runs_bind]
    exact ⟨_, _, arms', s₁, harms, body', s₂, hbody, keeps (by simp [coreKinds, Node.kind])⟩
  | conditional m c t e =>
    obtain ⟨c', s₁, hc⟩ := h c (by simp [Node.children]) s
    obtain ⟨t', s₂, ht⟩ := h t (by simp [Node.children]) s₁
    obtain ⟨e', s₃, he⟩ := h e (by simp [Node.children]) s₂
    simp only [Node.rebuild, runs_bind]
    exact ⟨_, _, c', s₁, hc, t', s₂, ht, e', s₃, he, keeps (by simp [coreKinds, Node.kind])⟩
  | sequence m es =>
    obtain ⟨es', s₁, hes⟩ := exists_runs_rebuildAll (fun e he => h e he) s
    simp only [Node.rebuild, runs_bind]
    exact ⟨_, _, es', s₁, hes, keeps (by simp [coreKinds, Node.kind])⟩
  | _ => exact hcore.elim

end Passes

/-! ## 5. Functions of several arguments -/

/-- What a computation gives, given back. -/
theorem Computation.bind_pure_self {α : Type} (x : Computation α) : (x >>= fun a => pure a) = x :=
  ext fun k => bind_pure (x.run k)

/-- The call of a function with arguments, one after the other. -/
def callAll (f : Value) : List Value → Computation Value
  | [] => pure f
  | v :: vs => do
    let g ← call f v
    callAll g vs

/-- The environment in which names have values, the last of them innermost. -/
def bindValues (xs : List String) (vs : List Value) (env : Environment) : Environment :=
  (xs.zip vs).reverse ++ env

theorem bindValues_cons (x : String) (xs : List String) (v : Value) (vs : List Value)
    (env : Environment) :
    bindValues (x :: xs) (v :: vs) env = bindValues xs vs ((x, v) :: env) := by
  rw [bindValues, bindValues, List.zip_cons_cons, List.reverse_cons, List.append_assoc]
  rfl

/-- A name that is bound by none of several bindings. -/
theorem lookup_bindValues_of_not_mem {x : String} {xs : List String} (hx : x ∉ xs) (vs : List Value)
    (env : Environment) : (bindValues xs vs env).lookup x = env.lookup x := by
  induction xs generalizing vs env with
  | nil => rfl
  | cons y xs ih =>
    rw [List.mem_cons, not_or] at hx
    cases vs with
    | nil => rfl
    | cons v vs => rw [bindValues_cons, ih hx.2, lookup_cons_of_ne hx.1]

/-- Different names have their own values. -/
theorem lookup_bindValues {xs : List String} (hxs : xs.Nodup) {vs : List Value}
    {env : Environment} {x : String} {v : Value} {i : Nat} (hx : xs[i]? = some x)
    (hv : vs[i]? = some v) : (bindValues xs vs env).lookup x = some v := by
  induction xs generalizing vs env i with
  | nil => cases hx
  | cons y xs ih =>
    obtain ⟨hy, hxs⟩ := List.nodup_cons.1 hxs
    cases vs with
    | nil => cases hv
    | cons w vs =>
      rw [bindValues_cons]
      cases i with
      | zero =>
        cases hx
        cases hv
        rw [lookup_bindValues_of_not_mem hy, List.lookup_cons_self]
      | succ i => exact ih hxs hx hv

/-- All of the values at once. -/
theorem map_lookup_bindValues {xs : List String} (hxs : xs.Nodup) {vs : List Value}
    (hlength : xs.length = vs.length) (env : Environment) :
    (xs.map fun x => (bindValues xs vs env).lookup x) = vs.map some := by
  refine List.ext_getElem? fun i => ?_
  rw [List.getElem?_map, List.getElem?_map]
  cases hx : xs[i]? with
  | none =>
    rw [List.getElem?_eq_none_iff, hlength] at hx
    rw [List.getElem?_eq_none_iff.2 hx]
    rfl
  | some x =>
    obtain ⟨hi, -⟩ := List.getElem?_eq_some_iff.1 hx
    have hv : vs[i]? = some vs[i] := List.getElem?_eq_getElem (hlength ▸ hi)
    rw [hv]
    exact congrArg some (lookup_bindValues hxs hx hv)

/-- **A function of several arguments** that gets them all does what its body does. -/
theorem delays_callAll (p : Position) (xs : List String) (vs : List Value) (body : Node)
    (env : Environment) (hlength : xs.length = vs.length) :
    Delays ((functions p xs body).evaluate env >>= fun f => callAll f vs)
      (body.evaluate (bindValues xs vs env)) := by
  induction xs generalizing vs env with
  | nil =>
    cases vs with
    | nil => exact (bind_pure_self _).symm ▸ .refl _
    | cons => cases hlength
  | cons x xs ih =>
    cases vs with
    | nil => cases hlength
    | cons v vs =>
      rw [bindValues_cons]
      show Delays (call (.closure env x (functions p xs body)) v >>= fun g => callAll g vs) _
      rw [call_closure]
      exact ((Delays.later _).bind fun _ => .refl _).trans (ih vs _ (Nat.succ.inj hlength))

/-- An application to variables, one after the other. -/
theorem evaluate_foldl_apply (p : Position) (ts : List String) (vs : List Value) (g : Node)
    (env : Environment) (hts : (ts.map fun t => env.lookup t) = vs.map some) :
    (ts.foldl (fun f t => apply p f (reference p t)) g).evaluate env =
      (do
        let f ← g.evaluate env
        callAll f vs) := by
  induction ts generalizing vs g with
  | nil =>
    cases vs with
    | nil => exact (bind_pure_self _).symm
    | cons => cases hts
  | cons t ts ih =>
    cases vs with
    | nil => cases hts
    | cons v vs =>
      obtain ⟨ht, hts⟩ := List.cons.inj hts
      have happly : (apply p g (reference p t)).evaluate env =
          (g.evaluate env >>= fun f => call f v) := by
        rw [apply, evaluate_application]
        refine congrArg (Bind.bind _) (funext fun f => ?_)
        rw [reference, evaluate_reference, show env.lookup t = some v from ht]
        rfl
      rw [List.foldl_cons, ih vs (apply p g (reference p t)) hts, happly, bind_bind]
      rfl

end ClosureML
