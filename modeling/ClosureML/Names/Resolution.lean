import ClosureML.Diagnostic.Report
import ClosureML.Names.Supply
import ClosureML.Scope
import ClosureML.Syntax.Node

/-!
# Resolution of names

Every binder of a program gets a name of its own, `name#n`, where `n` counts the binders of this
name so far. Data types and constructors keep their names, which must be unique in the whole
program; constructors are numbered in the order of their declaration, and the patterns that name
them get their number.

* `NameBinding` is what a name can refer to, `Registry` what has been named so far;
* `Node.resolve` resolves a tree in a scope, `Node.resolveNames` a whole program.

Main statement: `Names.lookup?_extend`, the rule of the innermost binding.
-/

namespace ClosureML

namespace Names

/-! ## 1. What names refer to -/

/-- What a name refers to: a variable that was renamed, a constructor with its number, or a data
    type. -/
inductive NameBinding where
  | binder (name renamed : String)
  | constructor (name : String) (tag : Nat)
  | dataType (name : String)
  deriving DecidableEq, Repr

/-- The names that are visible at some place. -/
abbrev NameScope := Scope NameBinding

/-- The new name of a value with a name, if the binding gives one: a variable's own new name, or
    the name of a constructor. -/
def NameBinding.value? (name : String) : NameBinding → Option String
  | binder bound renamed => if bound = name then some renamed else none
  | constructor bound _ => if bound = name then some bound else none
  | dataType _ => none

/-- The number of the constructor with a name, if the binding is this constructor. -/
def NameBinding.tag? (name : String) : NameBinding → Option Nat
  | constructor bound tag => if bound = name then some tag else none
  | _ => none

/-- Is the binding the data type with this name? -/
def NameBinding.declares (name : String) : NameBinding → Bool
  | dataType bound => bound = name
  | _ => false

/-- The new name of a value. -/
def lookup? (scope : NameScope) (name : String) : Option String :=
  scope.findSome? (NameBinding.value? name)

/-- The innermost binding that gives a value counts. -/
theorem lookup?_extend (scope : NameScope) (b : NameBinding) (name : String) :
    lookup? (scope.extend b) name = (b.value? name).or (lookup? scope name) := by
  simp only [lookup?, Scope.findSome?, Scope.extend, List.findSome?_cons]
  cases b.value? name <;> rfl

/-! ## 2. What has been named so far -/

/-- The names that a program has used up: the counts of renamed binders, the declared data types
    and constructors, and the number of the next constructor.

    `nextTag` has no bound. Counted in 32 bits, the numbers are the same for every program with
    fewer than 2^32 constructors; a longer count would wrap or stop. -/
structure Registry where
  supply : Supply
  dataTypes : List String
  constructors : List String
  nextTag : Nat
  deriving DecidableEq, Repr

/-- Nothing has been named yet. -/
def Registry.empty : Registry := ⟨.empty, [], [], 0⟩

/-- Resolution reads and changes the registry, which also an error leaves as it is by then. -/
abbrev Resolve := EStateM CompileError Registry

/-- Resolution ends with an error. -/
def fail {α : Type} (cause : Cause) (position : Position) : Resolve α := throw ⟨cause, position⟩

/-- A new name for a binder. -/
def rename (name : String) : Resolve String := do
  let registry ← get
  let (n, supply) := registry.supply.next name
  set { registry with supply }
  return name ++ "#" ++ toString n

/-- A new name for a binder, and the scope in which the binder has it. -/
def bindVariable (scope : NameScope) (name : String) : Resolve (String × NameScope) := do
  let renamed ← rename name
  return (renamed, scope.extend (.binder name renamed))

/-- The number of a constructor that a pattern names. -/
def constructorTag (scope : NameScope) (name : String) (position : Position) : Resolve Nat :=
  match scope.findSome? (NameBinding.tag? name) with
  | some tag => return tag
  | none => fail (.undeclaredConstructor name) position

/-! ## 3. Annotations -/

mutual

/-- The first name in a type expression that is no data type in scope. -/
def undeclared? (scope : NameScope) : TypeExpr → Option String
  | .base _ => none
  | .named name => if scope.toList.any (NameBinding.declares name) then none else some name
  | .function parameter result => (undeclared? scope parameter).or (undeclared? scope result)
  | .tuple elements => undeclaredIn? scope elements

/-- The first such name in several type expressions. -/
def undeclaredIn? (scope : NameScope) : List TypeExpr → Option String
  | [] => none
  | t :: ts => (undeclared? scope t).or (undeclaredIn? scope ts)

end

/-- The data types that type expressions name are declared. -/
def checkTypes (scope : NameScope) (types : List TypeExpr) (position : Position) : Resolve Unit :=
  match undeclaredIn? scope types with
  | none => return ()
  | some name => fail (.undeclaredDataType name) position

/-! ## 4. Groups of functions -/

/-- The first name that two functions of a group share, with the position of the second. `seen`
    are the names before. -/
def repeatedFunction? (seen : List String) : List Node → Option (String × Position)
  | [] => none
  | .letRecArm m f _ _ _ _ :: rest =>
    if seen.contains f then some (f, m.position) else repeatedFunction? (f :: seen) rest
  | _ :: rest => repeatedFunction? seen rest

/-- New names for the functions of a group, and the scope in which they have them. -/
def bindGroup (scope : NameScope) : List Node → Resolve (List String × NameScope)
  | [] => return ([], scope)
  | .letRecArm _ f _ _ _ _ :: rest => do
    let (renamed, scope) ← bindVariable scope f
    let (more, scope) ← bindGroup scope rest
    return (renamed :: more, scope)
  | _ :: rest => bindGroup scope rest

/-! ## 5. Data types -/

/-- A data type is entered; its name must be new. -/
def declareDataType (name : String) (position : Position) : Resolve Unit := do
  let registry ← get
  if registry.dataTypes.contains name then fail (.repeatedDataType name) position
  set { registry with dataTypes := name :: registry.dataTypes }

/-- A constructor is entered; its name must be new. -/
def declareConstructor (name : String) (position : Position) : Resolve Unit := do
  let registry ← get
  if registry.constructors.contains name then fail (.repeatedConstructor name) position
  set { registry with constructors := name :: registry.constructors }

/-- The number for the next constructor, which no constructor before it has. -/
def takeTag : Resolve Nat :=
  modifyGet fun registry => (registry.nextTag, { registry with nextTag := registry.nextTag + 1 })

/-- The constructors of a data type with their numbers, and the scope in which they are declared.
    The types of a constructor's parameters may name the type that is being declared. -/
def declareConstructors (dataType : String) (scope : NameScope) :
    List Node → Resolve (List Node × NameScope)
  | [] => return ([], scope)
  | .dataConstructor m c parameters _ :: rest => do
    declareConstructor c m.position
    checkTypes scope parameters m.position
    let tag ← takeTag
    let (more, inner) ← declareConstructors dataType (scope.extend (.constructor c tag)) rest
    return (.dataConstructor m c parameters (some tag) :: more, inner)
  | other :: _ => fail (.notAConstructorOf dataType) other.position

/-! ## 6. Patterns -/

/-- What the binders of a pattern have made so far: the scope of the arm's body, and the names
    that the pattern has bound. -/
structure ArmScope where
  scope : NameScope
  bound : List String

/-- A name is bound by a pattern; only `_` may be bound again. -/
def bindInPattern (arm : ArmScope) (name : String) (position : Position) :
    Resolve (String × ArmScope) := do
  if name ≠ "_" ∧ arm.bound.contains name then fail (.repeatedBinder name) position
  let (renamed, scope) ← bindVariable arm.scope name
  return (renamed, ⟨scope, name :: arm.bound⟩)

mutual

/-- A pattern with its binders renamed and its constructors, which `scope` knows, numbered. -/
def resolvePattern (scope : NameScope) : Node → ArmScope → Resolve (Node × ArmScope)
  | .patternBinder m x, arm => do
    let (x, arm) ← bindInPattern arm x m.position
    return (.patternBinder m x, arm)
  | .patternLiteral m v, arm => return (.patternLiteral m v, arm)
  | .patternTuple m ps, arm => do
    let (ps, arm) ← resolvePatterns scope ps arm
    return (.patternTuple m ps, arm)
  | .patternConstructor m c ps _, arm => do
    let tag ← constructorTag scope c m.position
    let (ps, arm) ← resolvePatterns scope ps arm
    return (.patternConstructor m c ps (some tag), arm)
  | other, _ => fail (.notAPattern other.kind) other.position

/-- Patterns from left to right. -/
def resolvePatterns (scope : NameScope) : List Node → ArmScope → Resolve (List Node × ArmScope)
  | [], arm => return ([], arm)
  | p :: ps, arm => do
    let (p, arm) ← resolvePattern scope p arm
    let (ps, arm) ← resolvePatterns scope ps arm
    return (p :: ps, arm)

end

end Names

/-! ## 7. Trees -/

open Names

mutual

/-- The tree with its names resolved in a scope. -/
def Node.resolve (scope : NameScope) : Node → Resolve Node
  | .reference m x =>
    match lookup? scope x with
    | some renamed => return .reference m renamed
    | none => fail (.unboundVariable x) m.position
  | .lambda m x ascription body => do
    checkTypes scope ascription.toList m.position
    let (x, inner) ← bindVariable scope x
    return .lambda m x ascription (← body.resolve inner)
  | .letIn m x ascription value body => do
    checkTypes scope ascription.toList m.position
    let value ← value.resolve scope
    let (x, inner) ← bindVariable scope x
    return .letIn m x ascription value (← body.resolve inner)
  | .letRec m arms body => do
    if let some (f, position) := repeatedFunction? [] arms then fail (.repeatedFunction f) position
    let (names, group) ← bindGroup scope arms
    let arms ← resolveGroup scope group arms names
    return .letRec m arms (← body.resolve group)
  | .dataType m d constructors body => do
    declareDataType d m.position
    let (constructors, inner) ← declareConstructors d (scope.extend (.dataType d)) constructors
    return .dataType m d constructors (← body.resolve inner)
  | .matchArm m p body => do
    let (p, arm) ← resolvePattern scope p ⟨scope, []⟩
    return .matchArm m p (← body.resolve arm.scope)
  | .top m e => do return .top m (← e.resolve scope)
  | .letRecArm m f x parameterAscription resultAscription body => do
    return .letRecArm m f x parameterAscription resultAscription (← body.resolve scope)
  | .application m function argument => do
    let function ← function.resolve scope
    return .application m function (← argument.resolve scope)
  | .conditional m condition thenBranch elseBranch => do
    let condition ← condition.resolve scope
    let thenBranch ← thenBranch.resolve scope
    return .conditional m condition thenBranch (← elseBranch.resolve scope)
  | .binary m operator lhs rhs => do
    let lhs ← lhs.resolve scope
    return .binary m operator lhs (← rhs.resolve scope)
  | .unary m operator operand => do return .unary m operator (← operand.resolve scope)
  | .sequence m statements => do return .sequence m (← resolveAll scope statements)
  | .tuple m elements => do return .tuple m (← resolveAll scope elements)
  | .projection m index arity target => do
    return .projection m index arity (← target.resolve scope)
  | .matchWith m scrutinee arms => do
    let scrutinee ← scrutinee.resolve scope
    return .matchWith m scrutinee (← resolveAll scope arms)
  | .patternTuple m elements => do return .patternTuple m (← resolveAll scope elements)
  | .patternConstructor m c arguments tag => do
    return .patternConstructor m c (← resolveAll scope arguments) tag
  | .literal m v => return .literal m v
  | .builtin m b => return .builtin m b
  | .dataConstructor m c parameters tag => return .dataConstructor m c parameters tag
  | .patternBinder m x => return .patternBinder m x
  | .patternLiteral m v => return .patternLiteral m v
  | .indexed m depth sibling => return .indexed m depth sibling

/-- Trees resolved one after the other in the same scope. -/
def Node.resolveAll (scope : NameScope) : List Node → Resolve (List Node)
  | [] => return []
  | n :: ns => do
    let n ← n.resolve scope
    return n :: (← Node.resolveAll scope ns)

/-- The functions of a group under their new names: ascriptions are read in the scope around the
    group, bodies in the group's scope with the parameter inside. -/
def Node.resolveGroup (scope group : NameScope) : List Node → List String → Resolve (List Node)
  | .letRecArm m f x parameterAscription resultAscription body :: rest, names => do
    checkTypes scope (parameterAscription.toList ++ resultAscription.toList) m.position
    let (x, inner) ← bindVariable group x
    let body ← body.resolve inner
    let arm := .letRecArm m (names.headD f) x parameterAscription resultAscription body
    return arm :: (← Node.resolveGroup scope group rest names.tail)
  | other :: rest, names => do return other :: (← Node.resolveGroup scope group rest names)
  | [], _ => return []

end

/-- The program with its names resolved. -/
def Node.resolveNames (n : Node) : Except CompileError Node :=
  match n.resolve .empty |>.run .empty with
  | .ok n _ => .ok n
  | .error e _ => .error e

end ClosureML
