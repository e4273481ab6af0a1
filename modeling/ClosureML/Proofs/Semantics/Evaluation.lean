import ClosureML.Lowering.Match
import ClosureML.Proofs.Semantics.Operation

/-!
# Evaluation of trees

What a tree does, when names are looked up in an environment: values are passed, functions are
evaluated before their arguments, and all else from left to right. The same definition serves the
trees of all passes, as long as their references are names.

* `Value` are the values, `Environment` the values of names, the innermost first;
* `matchPattern` is what a pattern makes of a value;
* `Node.eval` is the evaluation of a tree, when it is known what calls do; `callWithin` are the
  calls up to some depth;
* `Node.evaluate` and `call` are the computations that they make up.

Main statements: the equations of `Node.evaluate` and `call`, which say what evaluation does without
the bound.
-/

namespace ClosureML

/-! ## 1. Values -/

/-- A value: a machine word; a builtin; a function with the environment that it was made in, or the
    member with some number of a group of functions; a tuple; a value of a data type; a constructor
    that waits for more arguments, behind those that it has. -/
inductive Value where
  | word (n : Int)
  | builtin (builtin : Builtin)
  | closure (environment : List (String × Value)) (parameter : String) (body : Node)
  | member (environment : List (String × Value)) (functions : List Node) (number : Nat)
  | tuple (elements : List Value)
  | data (constructor : String) (arguments : List Value)
  | constructor (name : String) (missing : Nat) (arguments : List Value)
  deriving Inhabited

/-- The values of the names in scope, the innermost first. -/
abbrev Environment := List (String × Value)

theorem lookup_cons_of_ne {α : Type} {x y : String} {a : α} {env : List (String × α)} (h : x ≠ y) :
    List.lookup x ((y, a) :: env) = env.lookup x := by
  rw [List.lookup_cons, beq_eq_false_iff_ne.2 h]

namespace Value

/-- The word that a value is, if it is one. -/
def word? : Value → Option Int
  | word n => some n
  | _ => none

/-- A component of a tuple, which has as many elements as are recorded, if this is recorded. -/
def component? (index : Nat) (arity : Option Nat) : Value → Option Value
  | tuple vs => if arity.all (· = vs.length) then vs[index]? else none
  | _ => none

theorem component?_tuple {vs : List Value} {index : Nat} {arity : Option Nat} {v : Value}
    (hv : vs[index]? = some v) (harity : ∀ n, arity = some n → n = vs.length) :
    (tuple vs).component? index arity = some v := by
  have hall : arity.all (· = vs.length) = true := by
    cases arity with
    | none => rfl
    | some n => exact decide_eq_true (harity n rfl)
  exact (if_pos hall).trans hv

/-- The value of a constructor that has got some of its arguments. -/
def construct (c : String) (missing : Nat) (arguments : List Value) : Value :=
  if missing = 0 then data c arguments else constructor c missing arguments

end Value

/-- The environment inside a group of functions, which was made in `outer`; `rest` are the functions
    from number `i` on. -/
def bindMembers (outer : Environment) (functions : List Node) :
    (i : Nat) → (rest : List Node) → Environment → Environment
  | _, [], env => env
  | i, .letRecArm _ f _ _ _ _ :: rest, env =>
    bindMembers outer functions (i + 1) rest ((f, .member outer functions i) :: env)
  | i, _ :: rest, env => bindMembers outer functions (i + 1) rest env

/-- The environment inside a group of functions. -/
def bindGroup (env : Environment) (functions : List Node) : Environment :=
  bindMembers env functions 0 functions env

/-- The environment inside the declaration of a data type. -/
def bindConstructors : List Node → Environment → Environment
  | [], env => env
  | .dataConstructor _ c parameters _ :: rest, env =>
    bindConstructors rest ((c, .construct c parameters.length []) :: env)
  | _ :: rest, env => bindConstructors rest env

/-! ## 2. Patterns -/

/-- What a pattern makes of a value: it matches and binds names, it does not match, or the value has
    not the shape that the pattern is about. -/
inductive Matching where
  | binds (env : Environment)
  | fails
  | misfit

mutual

/-- What a pattern makes of a value; names are bound from left to right. -/
def matchPattern (env : Environment) : Node → Value → Matching
  | .patternBinder _ x, v => .binds ((x, v) :: env)
  | .patternLiteral _ l, .word n => if n = l.word then .binds env else .fails
  | .patternTuple _ ps, .tuple vs =>
    if ps.length = vs.length then matchPatterns env ps vs else .misfit
  | .patternConstructor _ c ps _, .data d vs =>
    if d = c then
      if ps.length = vs.length then matchPatterns env ps vs else .misfit
    else .fails
  | _, _ => .misfit

/-- What patterns make of as many values: the first that does not match decides. -/
def matchPatterns (env : Environment) : List Node → List Value → Matching
  | [], [] => .binds env
  | p :: ps, v :: vs =>
    match matchPattern env p v with
    | .binds env => matchPatterns env ps vs
    | .fails => .fails
    | .misfit => .misfit
  | _, _ => .misfit

end

/-! ## 3. Trees -/

mutual

/-- **The evaluation of a tree**, where `call` says what the call of a function does. -/
def Node.eval (call : Value → Value → EStateM Stop String Value) (env : Environment) :
    Node → EStateM Stop String Value
  | .top _ e => e.eval call env
  | .literal _ l => pure (.word l.word)
  | .reference _ x => runOrWrong (env.lookup x)
  | .builtin _ b => pure (.builtin b)
  | .lambda _ x _ body => pure (.closure env x body)
  | .application _ function argument => do
    let f ← function.eval call env
    let v ← argument.eval call env
    call f v
  | .letIn _ x _ value body => do
    let v ← value.eval call env
    body.eval call ((x, v) :: env)
  | .letRec _ arms body => body.eval call (bindGroup env arms)
  | .conditional _ condition thenBranch elseBranch => do
    let v ← condition.eval call env
    let n ← runOrWrong v.word?
    if n = 0 then elseBranch.eval call env else thenBranch.eval call env
  | .binary _ o lhs rhs => do
    let v ← lhs.eval call env
    let w ← rhs.eval call env
    let n ← runOrStop (o.operate v.word? w.word?)
    pure (.word n)
  | .unary _ o operand => do
    let v ← operand.eval call env
    let n ← runOrStop (o.operate v.word?)
    pure (.word n)
  | .sequence _ statements => do
    let vs ← Node.evalAll call env statements
    pure (vs.getLastD (.word 0))
  | .tuple _ elements => do
    let vs ← Node.evalAll call env elements
    pure (.tuple vs)
  | .projection _ index arity target => do
    let v ← target.eval call env
    runOrWrong (v.component? index arity)
  | .matchWith _ scrutinee arms => do
    let v ← scrutinee.eval call env
    Node.evalArms call env v arms
  | .dataType _ _ constructors body => body.eval call (bindConstructors constructors env)
  | .letRecArm .. | .matchArm .. | .dataConstructor .. | .patternBinder .. | .patternTuple ..
  | .patternLiteral .. | .patternConstructor .. | .indexed .. => throw .wrong

/-- The values of several trees, from left to right. -/
def Node.evalAll (call : Value → Value → EStateM Stop String Value) (env : Environment) :
    List Node → EStateM Stop String (List Value)
  | [] => pure []
  | n :: ns => do
    let v ← n.eval call env
    let vs ← Node.evalAll call env ns
    pure (v :: vs)

/-- The first arm whose pattern matches a value is evaluated. When there is none, the program ends
    with an exit code. -/
def Node.evalArms (call : Value → Value → EStateM Stop String Value) (env : Environment)
    (v : Value) : List Node → EStateM Stop String Value
  | [] => throw (.panic Lowering.inexhaustiveMatchExitCode)
  | .matchArm _ p body :: rest =>
    match matchPattern env p v with
    | .binds env => body.eval call env
    | .fails => Node.evalArms call env v rest
    | .misfit => throw .wrong
  | _ :: _ => throw .wrong

end

/-! ## 4. Calls -/

/-- The call of a function, where `evaluate` says what its body does. -/
def enter (evaluate : Environment → Node → EStateM Stop String Value) (f v : Value) :
    EStateM Stop String Value :=
  match f with
  | .closure env x body => evaluate ((x, v) :: env) body
  | .member env functions i =>
    match functions[i]? with
    | some (.letRecArm _ _ x _ _ body) => evaluate ((x, v) :: bindGroup env functions) body
    | _ => throw .wrong
  | .builtin b => do
    let text ← runOrStop (b.perform v.word?)
    modify (· ++ text)
    pure (.word 0)
  | .constructor c missing vs => pure (.construct c (missing - 1) (vs ++ [v]))
  | _ => throw .wrong

/-- The call of a function, where calls of functions of the program are nested up to some depth. -/
def callWithin : Nat → Value → Value → EStateM Stop String Value
  | 0 => enter fun _ _ => throw .timeout
  | k + 1 => enter fun env body => body.eval (callWithin k) env

mutual

theorem Node.eval_below {call call' : Value → Value → EStateM Stop String Value}
    (h : ∀ f v, Below (call f v) (call' f v)) :
    ∀ (n : Node) (env : Environment), Below (n.eval call env) (n.eval call' env)
  | .top _ e, env => by
    unfold eval
    exact eval_below h e env
  | .application _ function argument, env => by
    unfold eval
    exact (eval_below h function env).bind fun f => (eval_below h argument env).bind (h f)
  | .letIn _ x _ value body, env => by
    unfold eval
    exact (eval_below h value env).bind fun v => eval_below h body _
  | .letRec _ _ body, env => by
    unfold eval
    exact eval_below h body _
  | .conditional _ c t e, env => by
    unfold eval
    refine (eval_below h c env).bind fun v => (Below.refl _).bind fun n => ?_
    split
    · exact eval_below h e env
    · exact eval_below h t env
  | .binary _ _ l r, env => by
    unfold eval
    exact (eval_below h l env).bind fun _ => (eval_below h r env).bind fun _ => .refl _
  | .unary _ _ e, env => by
    unfold eval
    exact (eval_below h e env).bind fun _ => .refl _
  | .sequence _ es, env => by
    unfold eval
    exact (evalAll_below h es env).bind fun _ => .refl _
  | .tuple _ es, env => by
    unfold eval
    exact (evalAll_below h es env).bind fun _ => .refl _
  | .projection _ _ _ e, env => by
    unfold eval
    exact (eval_below h e env).bind fun _ => .refl _
  | .matchWith _ e arms, env => by
    unfold eval
    exact (eval_below h e env).bind fun v => evalArms_below h v arms env
  | .dataType _ _ _ body, env => by
    unfold eval
    exact eval_below h body _
  | .literal .., _ | .reference .., _ | .builtin .., _ | .lambda .., _ | .letRecArm .., _
  | .matchArm .., _ | .dataConstructor .., _ | .patternBinder .., _ | .patternTuple .., _
  | .patternLiteral .., _ | .patternConstructor .., _ | .indexed .., _ => by
    unfold eval
    exact .refl _

theorem Node.evalAll_below {call call' : Value → Value → EStateM Stop String Value}
    (h : ∀ f v, Below (call f v) (call' f v)) :
    ∀ (ns : List Node) (env : Environment), Below (evalAll call env ns) (evalAll call' env ns)
  | [], _ => .refl _
  | n :: ns, env => by
    unfold evalAll
    exact (eval_below h n env).bind fun _ => (evalAll_below h ns env).bind fun _ => .refl _

theorem Node.evalArms_below {call call' : Value → Value → EStateM Stop String Value}
    (h : ∀ f v, Below (call f v) (call' f v)) (v : Value) :
    ∀ (arms : List Node) (env : Environment),
      Below (evalArms call env v arms) (evalArms call' env v arms)
  | [], _ => .refl _
  | arm :: rest, env => by
    cases arm with
    | matchArm m p body =>
      unfold evalArms
      cases matchPattern env p v with
      | binds env' => exact eval_below h body env'
      | fails => exact evalArms_below h v rest env
      | misfit => exact .refl _
    | _ => exact .refl _

end

theorem enter_below {evaluate evaluate' : Environment → Node → EStateM Stop String Value}
    (h : ∀ env body, Below (evaluate env body) (evaluate' env body)) (f v : Value) :
    Below (enter evaluate f v) (enter evaluate' f v) := by
  unfold enter
  split
  · exact h _ _
  · split
    · exact h _ _
    · exact .refl _
  · exact .refl _
  · exact .refl _
  · exact .refl _

/-- Calls that may be nested deeper do the same. -/
theorem callWithin_mono {k j : Nat} (h : k ≤ j) (f v : Value) :
    Below (callWithin k f v) (callWithin j f v) := by
  induction k generalizing j f v with
  | zero =>
    cases j with
    | zero => exact .refl _
    | succ j => exact enter_below (fun _ _ => .timeout _) f v
  | succ k ih =>
    obtain ⟨j, rfl⟩ : ∃ i, j = i + 1 := ⟨j - 1, by omega⟩
    have hcall := ih (Nat.le_of_succ_le_succ h)
    exact enter_below (fun env body => body.eval_below hcall env) f v

/-! ## 5. Computations -/

/-- The evaluation of a tree in an environment. -/
def Node.evaluate (n : Node) (env : Environment) : Computation Value :=
  ⟨fun k => n.eval (callWithin k) env, fun h => n.eval_below (callWithin_mono h) env⟩

/-- The evaluation of several trees, from left to right. -/
def Node.evaluateAll (ns : List Node) (env : Environment) : Computation (List Value) :=
  ⟨fun k => Node.evalAll (callWithin k) env ns,
    fun h => Node.evalAll_below (callWithin_mono h) ns env⟩

/-- The evaluation of the first arm whose pattern matches. -/
def Node.evaluateArms (arms : List Node) (env : Environment) (v : Value) : Computation Value :=
  ⟨fun k => Node.evalArms (callWithin k) env v arms,
    fun h => Node.evalArms_below (callWithin_mono h) v arms env⟩

/-- The call of a function. -/
def call (f v : Value) : Computation Value :=
  ⟨fun k => callWithin k f v, fun h => callWithin_mono h f v⟩

section Equations

open ClosureML.Computation

variable {m : Mark} {env : Environment}

theorem evaluate_top (e : Node) : (Node.top m e).evaluate env = e.evaluate env := rfl

theorem evaluate_literal (l : Literal) :
    (Node.literal m l).evaluate env = pure (.word l.word) := rfl

theorem evaluate_reference (x : String) :
    (Node.reference m x).evaluate env = orWrong (env.lookup x) := rfl

theorem evaluate_builtin (b : Builtin) : (Node.builtin m b).evaluate env = pure (.builtin b) := rfl

theorem evaluate_lambda (x : String) (a : Option TypeExpr) (body : Node) :
    (Node.lambda m x a body).evaluate env = pure (.closure env x body) := rfl

theorem evaluate_application (function argument : Node) :
    (Node.application m function argument).evaluate env =
      (do
        let f ← function.evaluate env
        let v ← argument.evaluate env
        call f v) := rfl

theorem evaluate_letIn (x : String) (a : Option TypeExpr) (value body : Node) :
    (Node.letIn m x a value body).evaluate env =
      (do
        let v ← value.evaluate env
        body.evaluate ((x, v) :: env)) := rfl

theorem evaluate_letRec (arms : List Node) (body : Node) :
    (Node.letRec m arms body).evaluate env = body.evaluate (bindGroup env arms) := rfl

theorem evaluate_conditional (c t e : Node) :
    (Node.conditional m c t e).evaluate env =
      (do
        let v ← c.evaluate env
        let n ← orWrong v.word?
        if n = 0 then e.evaluate env else t.evaluate env) := by
  refine Computation.ext fun k => ?_
  refine congrArg (Bind.bind _) (funext fun v => congrArg (Bind.bind _) (funext fun n => ?_))
  exact (apply_ite (fun x : Computation Value => x.run k) (n = 0) (e.evaluate env)
    (t.evaluate env)).symm

theorem evaluate_binary (o : BinaryOperator) (l r : Node) :
    (Node.binary m o l r).evaluate env =
      (do
        let v ← l.evaluate env
        let w ← r.evaluate env
        let n ← orStop (o.operate v.word? w.word?)
        pure (.word n)) := rfl

theorem evaluate_unary (o : UnaryOperator) (e : Node) :
    (Node.unary m o e).evaluate env =
      (do
        let v ← e.evaluate env
        let n ← orStop (o.operate v.word?)
        pure (.word n)) := rfl

theorem evaluate_sequence (es : List Node) :
    (Node.sequence m es).evaluate env =
      (do
        let vs ← Node.evaluateAll es env
        pure (vs.getLastD (.word 0))) := rfl

theorem evaluate_tuple (es : List Node) :
    (Node.tuple m es).evaluate env =
      (do
        let vs ← Node.evaluateAll es env
        pure (.tuple vs)) := rfl

theorem evaluate_projection (index : Nat) (arity : Option Nat) (e : Node) :
    (Node.projection m index arity e).evaluate env =
      (do
        let v ← e.evaluate env
        orWrong (v.component? index arity)) := rfl

theorem evaluate_matchWith (e : Node) (arms : List Node) :
    (Node.matchWith m e arms).evaluate env =
      (do
        let v ← e.evaluate env
        Node.evaluateArms arms env v) := rfl

theorem evaluate_dataType (d : String) (cs : List Node) (body : Node) :
    (Node.dataType m d cs body).evaluate env = body.evaluate (bindConstructors cs env) := rfl

theorem evaluateAll_nil : Node.evaluateAll [] env = pure [] := rfl

theorem evaluateAll_cons (n : Node) (ns : List Node) :
    Node.evaluateAll (n :: ns) env =
      (do
        let v ← n.evaluate env
        let vs ← Node.evaluateAll ns env
        pure (v :: vs)) := rfl

theorem evaluateArms_nil (v : Value) :
    Node.evaluateArms [] env v = stop (.panic Lowering.inexhaustiveMatchExitCode) := rfl

section Arms

variable {p body : Node} {rest : List Node} {v : Value}

theorem evaluateArms_binds {env' : Environment} (h : matchPattern env p v = .binds env') :
    Node.evaluateArms (.matchArm m p body :: rest) env v = body.evaluate env' := by
  refine Computation.ext fun k => ?_
  show Node.evalArms _ env v _ = _
  unfold Node.evalArms
  rw [h]
  rfl

theorem evaluateArms_fails (h : matchPattern env p v = .fails) :
    Node.evaluateArms (.matchArm m p body :: rest) env v = Node.evaluateArms rest env v := by
  refine Computation.ext fun k => ?_
  show Node.evalArms _ env v _ = _
  conv => lhs; unfold Node.evalArms
  rw [h]
  rfl

theorem evaluateArms_misfit (h : matchPattern env p v = .misfit) :
    Node.evaluateArms (.matchArm m p body :: rest) env v = stop .wrong := by
  refine Computation.ext fun k => ?_
  show Node.evalArms _ env v _ = _
  unfold Node.evalArms
  rw [h]
  rfl

end Arms

/-- The call of a function of the program is one call deeper. -/
theorem call_closure (x : String) (body : Node) (v : Value) :
    call (.closure env x body) v = (body.evaluate ((x, v) :: env)).later := by
  refine Computation.ext fun k => ?_
  cases k <;> rfl

theorem call_member {functions : List Node} {i : Nat} {f x : String} {pa ra : Option TypeExpr}
    {body : Node} (h : functions[i]? = some (.letRecArm m f x pa ra body)) (v : Value) :
    call (.member env functions i) v =
      (body.evaluate ((x, v) :: bindGroup env functions)).later := by
  refine Computation.ext fun k => ?_
  cases k
  all_goals
    show callWithin _ _ _ = _
    simp only [callWithin, enter, h]
    rfl

theorem call_member_none {functions : List Node} {i : Nat} (h : functions[i]? = none) (v : Value) :
    call (.member env functions i) v = stop .wrong := by
  refine Computation.ext fun k => ?_
  cases k
  all_goals
    show callWithin _ _ _ = _
    simp only [callWithin, enter, h]
    rfl

theorem call_builtin (b : Builtin) (v : Value) :
    call (.builtin b) v =
      (do
        let text ← orStop (b.perform v.word?)
        print text
        pure (.word 0)) := by
  refine Computation.ext fun k => ?_
  cases k <;> rfl

theorem call_constructor (c : String) (missing : Nat) (vs : List Value) (v : Value) :
    call (.constructor c missing vs) v = pure (.construct c (missing - 1) (vs ++ [v])) := by
  refine Computation.ext fun k => ?_
  cases k <;> rfl

theorem call_word (n : Int) (v : Value) : call (.word n) v = stop .wrong := by
  refine Computation.ext fun k => ?_
  cases k <;> rfl

theorem call_tuple (vs : List Value) (v : Value) : call (.tuple vs) v = stop .wrong := by
  refine Computation.ext fun k => ?_
  cases k <;> rfl

theorem call_data (c : String) (vs : List Value) (v : Value) :
    call (.data c vs) v = stop .wrong := by
  refine Computation.ext fun k => ?_
  cases k <;> rfl

end Equations

end ClosureML
