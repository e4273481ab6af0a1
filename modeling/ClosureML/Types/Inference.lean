import ClosureML.Scope
import ClosureML.Types.Unification

/-!
# Inference of types

Every node of a program gets a type, most of them at first a variable of its own, and what the
program asks of these types is collected as equations. The value of a `let` and the functions of a
`letrec` are generalised: their names are bound to a schema, which carries the equations that its
variables must keep, and every use makes a new copy of both.

A projection must know at once how many elements its tuple has; so the equations collected by then
are solved on the way.

* `Node.infer` gives the types of a tree in an environment; how names are generalised is a
  parameter (`Generalizer`);
* `Node.inferTypes` gives those of a whole program, with the equations (`Typing`);
* `Typing.unify` solves the equations and writes the solution into the tree.
-/

namespace ClosureML

namespace Types

/-! ## 1. What inference carries along -/

/-- What names are bound to. -/
abbrev TypeEnvironment := Scope (String × Binding)

/-- The types of a constructor's parameters, and the data type that it makes. -/
structure Signature where
  parameters : List Ty
  dataType : Ty
  deriving DecidableEq, Repr

/-- What inference has made so far: the number of the next variable, the equations in the order in
    which they came up, the constructors that were declared (the last one first), and the solution
    of the first `solvedUntil` equations. -/
structure InferState where
  nextVariable : Nat
  constraints : Array Constraint
  signatures : List (String × Signature)
  solved : Substitution
  solvedUntil : Nat

/-- Nothing has been made yet. -/
def InferState.empty : InferState := ⟨0, #[], [], .empty, 0⟩

/-- Inference reads and changes this state, and may end with an error. -/
abbrev Infer := EStateM CompileError InferState

/-- Inference ends with an error. -/
def fail {α : Type} (cause : Cause) (position : Position) : Infer α := throw ⟨cause, position⟩

/-- A variable that was not used before. -/
def fresh : Infer Ty :=
  modifyGet fun s =>
    (.var (.ofNat s.nextVariable), { s with nextVariable := s.nextVariable + 1 })

/-- Two types must be equal; nothing is asked of types that are the same. -/
def constrain (left right : Ty) (position : Position) : Infer Unit :=
  let c : Constraint := ⟨left, right, position⟩
  if c.isTrivial then return ()
  else modify fun s => { s with constraints := s.constraints.push c }

/-- The number of equations so far. -/
def constraintCount : Infer Nat := return (← get).constraints.size

/-- The equations before number `start`, and those from there on. -/
def constraintsAround (start : Nat) : Infer (List Constraint × List Constraint) :=
  return (← get).constraints.toList.splitAt start

/-- The type of an ascription, a new variable where there is none. -/
def ascribedOrFresh : Option TypeExpr → Infer Ty
  | some ascription => return ascription.toTy
  | none => fresh

/-- What a name is bound to. -/
def lookup? (environment : TypeEnvironment) (name : String) : Option Binding :=
  environment.findSome? fun (bound, binding) => if bound = name then some binding else none

/-! ## 2. Schemas -/

/-- The variables that an environment holds fixed. -/
def environmentVariables (environment : TypeEnvironment) : VarSet :=
  environment.toList.foldr (fun (_, binding) vs => binding.freeVariables.union vs) []

/-- The binding of a name with a type that is subject to equations. All their variables but the
    fixed ones are quantified; equations without any of them are left out of the schema, since
    copying them would only repeat them. -/
def generalizeOver (fixed : VarSet) (type : Ty) (constraints : List Constraint) : Binding :=
  let quantified :=
    (VarSet.ofList (type.occurrences ++ constraints.flatMap Constraint.occurrences)).diff fixed
  if quantified.isEmpty then .mono type
  else
    .poly ⟨quantified, type,
      constraints.filter fun c => c.occurrences.any fun v => quantified.contains v⟩

/-- How names are generalised: the binding of a name in an environment, from the equations that were
    collected before its value, those that its value adds, and its type. -/
abbrev Generalizer :=
  TypeEnvironment → (earlier since : List Constraint) → (type : Ty) → Binding

/-- The variables that the environment does not hold fixed are quantified. -/
def generalize : Generalizer := fun environment _ since type =>
  generalizeOver (environmentVariables environment) type since

/-- New variables for quantified ones. -/
def freshCopies : VarSet → Infer (List (TypeVar × Ty))
  | [] => return []
  | v :: vs => do
    let t ← fresh
    return (v, t) :: (← freshCopies vs)

/-- The type of a copy of a schema, whose equations are added to the others. -/
def instantiate (schema : Schema) : Infer Ty := do
  let copies ← freshCopies schema.quantified
  let σ := fun v => Substitution.findIn v copies
  modify fun s =>
    { s with constraints := s.constraints ++ schema.constraints.map (Constraint.substitute σ) }
  return schema.type.substitute σ

/-! ## 3. Solving on the way -/

/-- The type as far as the equations so far determine it. -/
def resolveNow (t : Ty) : Infer Ty := do
  let s ← get
  match s.solved.extend (s.constraints.toList.drop s.solvedUntil) with
  | .ok solved =>
    set { s with solved, solvedUntil := s.constraints.size }
    return solved.apply t
  | .error e => throw e

/-! ## 4. Declarations and patterns -/

/-- The type of a literal. -/
def literalType (v : Literal) : Ty := .base v.baseType

/-- The mark with a type. -/
def typed (m : Mark) (t : Ty) : Mark := ⟨m.position, some t⟩

/-- The type of a constructor: a function of its parameters, one after the other. -/
def constructorType (parameters : List Ty) (dataType : Ty) : Ty :=
  parameters.foldr .function dataType

/-- The constructors of a data type with their types, and the environment in which they are
    bound. -/
def declareConstructors (name : String) (environment : TypeEnvironment) :
    List Node → Infer (List Node × TypeEnvironment)
  | [] => return ([], environment)
  | .dataConstructor m c parameters tag :: rest => do
    let types := parameters.map TypeExpr.toTy
    let type := constructorType types (.data name)
    modify fun s => { s with signatures := (c, ⟨types, .data name⟩) :: s.signatures }
    let (more, inner) ← declareConstructors name (environment.extend (c, .mono type)) rest
    return (.dataConstructor (typed m type) c parameters tag :: more, inner)
  | other :: _ => fail (.notAConstructorOf name) other.position

/-- The names of the functions of a group, each with the types of its parameter and its result. -/
def declareGroup : List Node → Infer (List (String × Ty × Ty))
  | [] => return []
  | .letRecArm _ f _ parameterAscription resultAscription _ :: rest => do
    let parameter ← ascribedOrFresh parameterAscription
    let result ← ascribedOrFresh resultAscription
    return (f, parameter, result) :: (← declareGroup rest)
  | other :: _ => fail .notAFunctionDefinition other.position

mutual

/-- A pattern with its types, the type of what it matches, and what it binds, from left to
    right. -/
def inferPattern : Node → Infer (Node × Ty × List (String × Binding))
  | .patternBinder m x => do
    let t ← fresh
    return (.patternBinder (typed m t) x, t, [(x, .mono t)])
  | .patternLiteral m v =>
    return (.patternLiteral (typed m (literalType v)) v, literalType v, [])
  | .patternTuple m elements => do
    let (elements, types, bindings) ← inferPatterns elements
    return (.patternTuple (typed m (.tuple types)) elements, .tuple types, bindings)
  | .patternConstructor m c arguments tag => do
    match (← get).signatures.lookup c with
    | none => fail (.untypedConstructor c) m.position
    | some ⟨parameters, dataType⟩ =>
      if arguments.length ≠ parameters.length then
        fail (.constructorArity c parameters.length arguments.length) m.position
      else
        let (arguments, bindings) ← inferArguments arguments parameters
        return (.patternConstructor (typed m dataType) c arguments tag, dataType, bindings)
  | other => fail (.notAPattern other.kind) other.position

/-- Patterns from left to right. -/
def inferPatterns : List Node → Infer (List Node × List Ty × List (String × Binding))
  | [] => return ([], [], [])
  | p :: ps => do
    let (p, t, bindings) ← inferPattern p
    let (ps, ts, more) ← inferPatterns ps
    return (p :: ps, t :: ts, bindings ++ more)

/-- The arguments of a constructor's pattern, each of which matches a parameter. -/
def inferArguments : List Node → List Ty → Infer (List Node × List (String × Binding))
  | p :: ps, parameter :: parameters => do
    let position := p.position
    let (p, t, bindings) ← inferPattern p
    constrain t parameter position
    let (ps, more) ← inferArguments ps parameters
    return (p :: ps, bindings ++ more)
  | ps, _ => return (ps, [])

end

end Types

/-! ## 5. Trees -/

open ClosureML.Types

mutual

/-- The tree with the types of its nodes, and the type of its root. -/
def Node.infer (g : Generalizer) (environment : TypeEnvironment) : Node → Infer (Node × Ty)
  | .top m e => do
    let (e, t) ← e.infer g environment
    return (.top (typed m t) e, t)
  | .literal m v => return (.literal (typed m (literalType v)) v, literalType v)
  | .reference m x => do
    match lookup? environment x with
    | some (.mono t) => return (.reference (typed m t) x, t)
    | some (.poly schema) =>
      let t ← instantiate schema
      return (.reference (typed m t) x, t)
    | none => fail (.untypedVariable x) m.position
  | .builtin m b => do
    let parameter ← fresh
    let result ←
      match b with
      | .println | .print => pure Ty.unit
      | .panic => fresh
    let t := .function parameter result
    return (.builtin (typed m t) b, t)
  | .lambda m x ascription body => do
    let parameter ← ascribedOrFresh ascription
    let (body, result) ← body.infer g (environment.extend (x, .mono parameter))
    let t := .function parameter result
    return (.lambda (typed m t) x ascription body, t)
  | .application m function argument => do
    let (function, functionType) ← function.infer g environment
    let (argument, argumentType) ← argument.infer g environment
    let result ← fresh
    constrain functionType (.function argumentType result) m.position
    return (.application (typed m result) function argument, result)
  | .letIn m x ascription value body => do
    let start ← constraintCount
    let (value, valueType) ← value.infer g environment
    if let some a := ascription then constrain valueType a.toTy m.position
    let (earlier, since) ← constraintsAround start
    let (body, t) ← body.infer g (environment.extend (x, g environment earlier since valueType))
    return (.letIn (typed m t) x ascription value body, t)
  | .letRec m arms body => do
    let declared ← declareGroup arms
    let start ← constraintCount
    let group := environment.extendAll
      (declared.map fun (f, parameter, result) => (f, .mono (.function parameter result)))
    let arms ← inferGroup g group arms (declared.map Prod.snd)
    let (earlier, since) ← constraintsAround start
    let inner := environment.extendAll
      (declared.map fun (f, parameter, result) =>
        (f, g environment earlier since (.function parameter result)))
    let (body, t) ← body.infer g inner
    return (.letRec (typed m t) arms body, t)
  | .conditional m condition thenBranch elseBranch => do
    let place := condition.position
    let (condition, conditionType) ← condition.infer g environment
    constrain conditionType .bool place
    let (thenBranch, t) ← thenBranch.infer g environment
    let (elseBranch, elseType) ← elseBranch.infer g environment
    constrain t elseType m.position
    return (.conditional (typed m t) condition thenBranch elseBranch, t)
  | .binary m operator lhs rhs => do
    let lhsPlace := lhs.position
    let rhsPlace := rhs.position
    let (lhs, lhsType) ← lhs.infer g environment
    let (rhs, rhsType) ← rhs.infer g environment
    match operator.operatorClass with
    | .arithmetic =>
      constrain lhsType .int lhsPlace
      constrain rhsType .int rhsPlace
      return (.binary (typed m .int) operator lhs rhs, .int)
    | .relational =>
      constrain lhsType .int lhsPlace
      constrain rhsType .int rhsPlace
      return (.binary (typed m .bool) operator lhs rhs, .bool)
    | .equality =>
      constrain lhsType rhsType m.position
      return (.binary (typed m .bool) operator lhs rhs, .bool)
  | .unary m operator operand => do
    let place := operand.position
    let (operand, operandType) ← operand.infer g environment
    constrain operandType .int place
    return (.unary (typed m .int) operator operand, .int)
  | .sequence m statements => do
    let (statements, types) ← inferAll g environment statements
    let t := types.getLastD .unit
    return (.sequence (typed m t) statements, t)
  | .tuple m elements => do
    let (elements, types) ← inferAll g environment elements
    return (.tuple (typed m (.tuple types)) elements, .tuple types)
  | .projection m index _ target => do
    let (target, targetType) ← target.infer g environment
    match ← resolveNow targetType with
    | .tuple types =>
      match types[index]? with
      | some t => return (.projection (typed m t) index (some types.length) target, t)
      | none => fail (.projectionOutOfRange index (.tuple types)) m.position
    | other => fail (.projectionOfNonTuple index other) m.position
  | .dataType m name constructors body => do
    let (constructors, inner) ← declareConstructors name environment constructors
    let (body, t) ← body.infer g inner
    return (.dataType (typed m t) name constructors body, t)
  | .matchWith m scrutinee arms => do
    let (scrutinee, scrutineeType) ← scrutinee.infer g environment
    let result ← fresh
    let arms ← inferArms g environment scrutineeType result arms
    return (.matchWith (typed m result) scrutinee arms, result)
  | .letRecArm m .. => fail (.outOfPlace .letRecArm) m.position
  | .matchArm m .. => fail (.outOfPlace .matchArm) m.position
  | .dataConstructor m .. => fail (.outOfPlace .dataConstructor) m.position
  | .patternBinder m .. => fail (.outOfPlace .patternBinder) m.position
  | .patternTuple m .. => fail (.outOfPlace .patternTuple) m.position
  | .patternLiteral m .. => fail (.outOfPlace .patternLiteral) m.position
  | .patternConstructor m .. => fail (.outOfPlace .patternConstructor) m.position
  | .indexed m .. => fail .untypedIndex m.position

/-- Trees from left to right, with the types of their roots. -/
def Node.inferAll (g : Generalizer) (environment : TypeEnvironment) :
    List Node → Infer (List Node × List Ty)
  | [] => return ([], [])
  | n :: ns => do
    let (n, t) ← n.infer g environment
    let (ns, ts) ← Node.inferAll g environment ns
    return (n :: ns, t :: ts)

/-- The functions of a group, whose names the environment binds, with the types of their parameters
    and results. -/
def Node.inferGroup (g : Generalizer) (group : TypeEnvironment) :
    List Node → List (Ty × Ty) → Infer (List Node)
  | .letRecArm m f x parameterAscription resultAscription body :: rest,
      (parameter, result) :: types => do
    let (body, bodyType) ← body.infer g (group.extend (x, .mono parameter))
    constrain bodyType result m.position
    let m := typed m (.function parameter result)
    let arm := .letRecArm m f x parameterAscription resultAscription body
    return arm :: (← Node.inferGroup g group rest types)
  | _, _ => return []

/-- The arms of a `match`: their patterns match the scrutinee, their bodies have the type of the
    whole. -/
def Node.inferArms (g : Generalizer) (environment : TypeEnvironment) (scrutinee result : Ty) :
    List Node → Infer (List Node)
  | [] => return []
  | .matchArm m pattern body :: rest => do
    let place := pattern.position
    let (pattern, patternType, bindings) ← inferPattern pattern
    constrain scrutinee patternType place
    let (body, bodyType) ← body.infer g (environment.extendAll bindings)
    constrain bodyType result m.position
    let arm := .matchArm (typed m result) pattern body
    return arm :: (← Node.inferArms g environment scrutinee result rest)
  | other :: _ => fail .notAnArm other.position

end

/-- A tree with its types, the type of its root, and the equations that the types must keep. -/
structure Typing where
  tree : Node
  type : Ty
  constraints : List Constraint
  deriving Repr

/-- The types of a program whose names are generalised by `g`. -/
def Node.inferTypesBy (g : Generalizer) (n : Node) : Except CompileError Typing :=
  match n.infer g .empty |>.run .empty with
  | .ok (tree, type) s => .ok ⟨tree, type, s.constraints.toList⟩
  | .error e _ => .error e

/-- The types of a program. -/
def Node.inferTypes (n : Node) : Except CompileError Typing := n.inferTypesBy generalize

/-- The tree with the types that the equations determine. -/
def Typing.unify (typing : Typing) : Except CompileError Node := do
  return typing.tree.applyTypes (← solve typing.constraints)

end ClosureML
