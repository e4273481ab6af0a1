import ClosureML.Proofs.Machine.Execution
import ClosureML.Proofs.Semantics.Computation
import ClosureML.Syntax.Node

/-!
# Evaluation in a positional environment

What a tree of core constructs does when its references are places: the environment holds the
innermost slot first, and slots are numbered from 1 outward. A slot holds one value, or a group of
functions, of which a reference takes a member by its number.

* `IndexedValue` are the values, and what lies in a slot;
* `IndexedValue.at?` is the value at a place;
* `Node.evalIndexed` is the evaluation of a tree, when it is known what calls do;
* `Node.evaluateIndexed` and `callIndexed` are the computations that they make up.

Main statements: the equations of `Node.evaluateIndexed` and `callIndexed`, which say what
evaluation does without the bound.
-/

namespace ClosureML

/-! ## 1. Values -/

/-- A value: a machine word; a builtin; a function with the environment that it was made in. Only a
    slot holds a group of functions, which was made in `environment`. -/
inductive IndexedValue where
  | word (n : Int)
  | builtin (builtin : Builtin)
  | closure (environment : List IndexedValue) (body : Node)
  | group (environment : List IndexedValue) (functions : List Node)
  deriving Inhabited

namespace IndexedValue

/-- The word that a value is, if it is one. -/
def word? : IndexedValue → Option Int
  | word n => some n
  | _ => none

/-- A member of a group, which was made in `environment`. -/
def member? (environment : List IndexedValue) (functions : List Node) (number : Nat) :
    Option IndexedValue :=
  match numbered? functions number with
  | some (.letRecArm _ _ _ _ _ body) =>
    some (.closure (.group environment functions :: environment) body)
  | _ => none

/-- The value at a place: that of a slot, or of a member of the group in a slot. -/
def at? (environment : List IndexedValue) (depth : Nat) (sibling : Option Nat) :
    Option IndexedValue :=
  match numbered? environment depth, sibling with
  | some (group outer functions), some number => member? outer functions number
  | some (group _ _), none => none
  | some v, none => some v
  | _, _ => none

/-- What lies at a place is what lies in its slot, or the member of the group that does. -/
theorem of_at? {environment : List IndexedValue} {depth : Nat} {sibling : Option Nat}
    {v : IndexedValue} (h : at? environment depth sibling = some v) :
    ∃ slot, numbered? environment depth = some slot ∧
      (sibling = none ∧ slot = v ∨ ∃ outer functions number, sibling = some number ∧
        slot = group outer functions ∧ member? outer functions number = some v) := by
  unfold at? at h
  split at h
  · next hslot => exact ⟨_, hslot, .inr ⟨_, _, _, rfl, rfl, h⟩⟩
  · cases h
  · next hslot => exact ⟨_, hslot, .inl ⟨rfl, Option.some.inj h⟩⟩
  · cases h

end IndexedValue

/-! ## 2. Trees -/

mutual

/-- **The evaluation of a tree**, where `call` says what the call of a function does. -/
def Node.evalIndexed (call : IndexedValue → IndexedValue → EStateM Stop String IndexedValue)
    (env : List IndexedValue) : Node → EStateM Stop String IndexedValue
  | .top _ e => e.evalIndexed call env
  | .literal _ l => pure (.word l.word)
  | .indexed _ depth sibling => runOrWrong (IndexedValue.at? env depth sibling)
  | .builtin _ b => pure (.builtin b)
  | .lambda _ _ _ body => pure (.closure env body)
  | .application _ function argument => do
    let f ← function.evalIndexed call env
    let v ← argument.evalIndexed call env
    call f v
  | .letIn _ _ _ value body => do
    let v ← value.evalIndexed call env
    body.evalIndexed call (v :: env)
  | .letRec _ arms body => body.evalIndexed call (.group env arms :: env)
  | .conditional _ condition thenBranch elseBranch => do
    let v ← condition.evalIndexed call env
    let n ← runOrWrong v.word?
    if n = 0 then elseBranch.evalIndexed call env else thenBranch.evalIndexed call env
  | .binary _ o lhs rhs => do
    let v ← lhs.evalIndexed call env
    let w ← rhs.evalIndexed call env
    let n ← runOrStop (o.operate v.word? w.word?)
    pure (.word n)
  | .unary _ o operand => do
    let v ← operand.evalIndexed call env
    let n ← runOrStop (o.operate v.word?)
    pure (.word n)
  | .sequence _ statements => do
    let vs ← Node.evalIndexedAll call env statements
    pure (vs.getLastD (.word 0))
  | .reference .. | .tuple .. | .projection .. | .matchWith .. | .dataType .. | .letRecArm ..
  | .matchArm .. | .dataConstructor .. | .patternBinder .. | .patternTuple .. | .patternLiteral ..
  | .patternConstructor .. => throw .wrong

/-- The values of several trees, from left to right. -/
def Node.evalIndexedAll (call : IndexedValue → IndexedValue → EStateM Stop String IndexedValue)
    (env : List IndexedValue) : List Node → EStateM Stop String (List IndexedValue)
  | [] => pure []
  | n :: ns => do
    let v ← n.evalIndexed call env
    let vs ← Node.evalIndexedAll call env ns
    pure (v :: vs)

end

/-! ## 3. Calls -/

/-- The call of a function, where `evaluate` says what its body does. -/
def enterIndexed (evaluate : List IndexedValue → Node → EStateM Stop String IndexedValue)
    (f v : IndexedValue) : EStateM Stop String IndexedValue :=
  match f with
  | .closure env body => evaluate (v :: env) body
  | .builtin b => do
    let text ← runOrStop (b.perform v.word?)
    modify (· ++ text)
    pure (.word 0)
  | _ => throw .wrong

/-- The call of a function, where calls of functions of the program are nested up to some depth. -/
def callIndexedWithin : Nat → IndexedValue → IndexedValue → EStateM Stop String IndexedValue
  | 0 => enterIndexed fun _ _ => throw .timeout
  | k + 1 => enterIndexed fun env body => body.evalIndexed (callIndexedWithin k) env

mutual

theorem Node.evalIndexed_below
    {call call' : IndexedValue → IndexedValue → EStateM Stop String IndexedValue}
    (h : ∀ f v, Below (call f v) (call' f v)) :
    ∀ (n : Node) (env : List IndexedValue), Below (n.evalIndexed call env) (n.evalIndexed call' env)
  | .top _ e, env => by
    unfold evalIndexed
    exact evalIndexed_below h e env
  | .application _ function argument, env => by
    unfold evalIndexed
    exact (evalIndexed_below h function env).bind fun f =>
      (evalIndexed_below h argument env).bind (h f)
  | .letIn _ _ _ value body, env => by
    unfold evalIndexed
    exact (evalIndexed_below h value env).bind fun v => evalIndexed_below h body _
  | .letRec _ _ body, env => by
    unfold evalIndexed
    exact evalIndexed_below h body _
  | .conditional _ c t e, env => by
    unfold evalIndexed
    refine (evalIndexed_below h c env).bind fun v => (Below.refl _).bind fun n => ?_
    split
    · exact evalIndexed_below h e env
    · exact evalIndexed_below h t env
  | .binary _ _ l r, env => by
    unfold evalIndexed
    exact (evalIndexed_below h l env).bind fun _ =>
      (evalIndexed_below h r env).bind fun _ => .refl _
  | .unary _ _ e, env => by
    unfold evalIndexed
    exact (evalIndexed_below h e env).bind fun _ => .refl _
  | .sequence _ es, env => by
    unfold evalIndexed
    exact (evalIndexedAll_below h es env).bind fun _ => .refl _
  | .literal .., _ | .indexed .., _ | .builtin .., _ | .lambda .., _ | .reference .., _
  | .tuple .., _ | .projection .., _ | .matchWith .., _ | .dataType .., _ | .letRecArm .., _
  | .matchArm .., _ | .dataConstructor .., _ | .patternBinder .., _ | .patternTuple .., _
  | .patternLiteral .., _ | .patternConstructor .., _ => by
    unfold evalIndexed
    exact .refl _

theorem Node.evalIndexedAll_below
    {call call' : IndexedValue → IndexedValue → EStateM Stop String IndexedValue}
    (h : ∀ f v, Below (call f v) (call' f v)) :
    ∀ (ns : List Node) (env : List IndexedValue),
      Below (evalIndexedAll call env ns) (evalIndexedAll call' env ns)
  | [], _ => .refl _
  | n :: ns, env => by
    unfold evalIndexedAll
    exact (evalIndexed_below h n env).bind fun _ =>
      (evalIndexedAll_below h ns env).bind fun _ => .refl _

end

theorem enterIndexed_below
    {evaluate evaluate' : List IndexedValue → Node → EStateM Stop String IndexedValue}
    (h : ∀ env body, Below (evaluate env body) (evaluate' env body)) (f v : IndexedValue) :
    Below (enterIndexed evaluate f v) (enterIndexed evaluate' f v) := by
  unfold enterIndexed
  split
  · exact h _ _
  · exact .refl _
  · exact .refl _

/-- Calls that may be nested deeper do the same. -/
theorem callIndexedWithin_mono {k j : Nat} (h : k ≤ j) (f v : IndexedValue) :
    Below (callIndexedWithin k f v) (callIndexedWithin j f v) := by
  induction k generalizing j f v with
  | zero =>
    cases j with
    | zero => exact .refl _
    | succ j => exact enterIndexed_below (fun _ _ => .timeout _) f v
  | succ k ih =>
    obtain ⟨j, rfl⟩ : ∃ i, j = i + 1 := ⟨j - 1, by omega⟩
    have hcall := ih (Nat.le_of_succ_le_succ h)
    exact enterIndexed_below (fun env body => body.evalIndexed_below hcall env) f v

/-! ## 4. Computations -/

/-- The evaluation of a tree in an environment. -/
def Node.evaluateIndexed (n : Node) (env : List IndexedValue) : Computation IndexedValue :=
  ⟨fun k => n.evalIndexed (callIndexedWithin k) env,
    fun h => n.evalIndexed_below (callIndexedWithin_mono h) env⟩

/-- The evaluation of several trees, from left to right. -/
def Node.evaluateIndexedAll (ns : List Node) (env : List IndexedValue) :
    Computation (List IndexedValue) :=
  ⟨fun k => Node.evalIndexedAll (callIndexedWithin k) env ns,
    fun h => Node.evalIndexedAll_below (callIndexedWithin_mono h) ns env⟩

/-- The call of a function. -/
def callIndexed (f v : IndexedValue) : Computation IndexedValue :=
  ⟨fun k => callIndexedWithin k f v, fun h => callIndexedWithin_mono h f v⟩

section Equations

open ClosureML.Computation

variable {m : Mark} {env : List IndexedValue}

theorem evaluateIndexed_top (e : Node) :
    (Node.top m e).evaluateIndexed env = e.evaluateIndexed env := rfl

theorem evaluateIndexed_literal (l : Literal) :
    (Node.literal m l).evaluateIndexed env = pure (.word l.word) := rfl

theorem evaluateIndexed_indexed (depth : Nat) (sibling : Option Nat) :
    (Node.indexed m depth sibling).evaluateIndexed env =
      orWrong (IndexedValue.at? env depth sibling) := rfl

theorem evaluateIndexed_builtin (b : Builtin) :
    (Node.builtin m b).evaluateIndexed env = pure (.builtin b) := rfl

theorem evaluateIndexed_lambda (x : String) (a : Option TypeExpr) (body : Node) :
    (Node.lambda m x a body).evaluateIndexed env = pure (.closure env body) := rfl

theorem evaluateIndexed_application (function argument : Node) :
    (Node.application m function argument).evaluateIndexed env =
      (do
        let f ← function.evaluateIndexed env
        let v ← argument.evaluateIndexed env
        callIndexed f v) := rfl

theorem evaluateIndexed_letIn (x : String) (a : Option TypeExpr) (value body : Node) :
    (Node.letIn m x a value body).evaluateIndexed env =
      (do
        let v ← value.evaluateIndexed env
        body.evaluateIndexed (v :: env)) := rfl

theorem evaluateIndexed_letRec (arms : List Node) (body : Node) :
    (Node.letRec m arms body).evaluateIndexed env =
      body.evaluateIndexed (.group env arms :: env) := rfl

theorem evaluateIndexed_conditional (c t e : Node) :
    (Node.conditional m c t e).evaluateIndexed env =
      (do
        let v ← c.evaluateIndexed env
        let n ← orWrong v.word?
        if n = 0 then e.evaluateIndexed env else t.evaluateIndexed env) := by
  refine Computation.ext fun k => ?_
  refine congrArg (Bind.bind _) (funext fun v => congrArg (Bind.bind _) (funext fun n => ?_))
  exact (apply_ite (fun x : Computation IndexedValue => x.run k) (n = 0) (e.evaluateIndexed env)
    (t.evaluateIndexed env)).symm

theorem evaluateIndexed_binary (o : BinaryOperator) (l r : Node) :
    (Node.binary m o l r).evaluateIndexed env =
      (do
        let v ← l.evaluateIndexed env
        let w ← r.evaluateIndexed env
        let n ← orStop (o.operate v.word? w.word?)
        pure (.word n)) := rfl

theorem evaluateIndexed_unary (o : UnaryOperator) (e : Node) :
    (Node.unary m o e).evaluateIndexed env =
      (do
        let v ← e.evaluateIndexed env
        let n ← orStop (o.operate v.word?)
        pure (.word n)) := rfl

theorem evaluateIndexed_sequence (es : List Node) :
    (Node.sequence m es).evaluateIndexed env =
      (do
        let vs ← Node.evaluateIndexedAll es env
        pure (vs.getLastD (.word 0))) := rfl

theorem evaluateIndexedAll_nil : Node.evaluateIndexedAll [] env = pure [] := rfl

theorem evaluateIndexedAll_cons (n : Node) (ns : List Node) :
    Node.evaluateIndexedAll (n :: ns) env =
      (do
        let v ← n.evaluateIndexed env
        let vs ← Node.evaluateIndexedAll ns env
        pure (v :: vs)) := rfl

/-- The call of a function of the program is one call deeper. -/
theorem callIndexed_closure (body : Node) (v : IndexedValue) :
    callIndexed (.closure env body) v = (body.evaluateIndexed (v :: env)).later := by
  refine Computation.ext fun k => ?_
  cases k <;> rfl

theorem callIndexed_builtin (b : Builtin) (v : IndexedValue) :
    callIndexed (.builtin b) v =
      (do
        let text ← orStop (b.perform v.word?)
        print text
        pure (.word 0)) := by
  refine Computation.ext fun k => ?_
  cases k <;> rfl

theorem callIndexed_word (n : Int) (v : IndexedValue) : callIndexed (.word n) v = stop .wrong := by
  refine Computation.ext fun k => ?_
  cases k <;> rfl

theorem callIndexed_group (functions : List Node) (v : IndexedValue) :
    callIndexed (.group env functions) v = stop .wrong := by
  refine Computation.ext fun k => ?_
  cases k <;> rfl

end Equations

end ClosureML
