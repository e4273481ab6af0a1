import ClosureML.Diagnostic.Report
import ClosureML.Scope
import ClosureML.Syntax.Node

/-!
# Places in the environment

At run time a program has no names: values lie in an environment, one slot for every function
parameter and every `let` around the place, and one slot for every group of functions. A reference
becomes the number of its slot, counted from 1 outward, and for the member of a group its number in
the group.

* `Slot` is what lies in a slot, `Slot.place?` finds a name among slots;
* `Node.index` replaces the references of a tree.
-/

namespace ClosureML

/-! ## 1. Slots -/

/-- A slot of the environment: one value, or the functions of a group in their order. -/
inductive Slot where
  | single (name : String)
  | group (names : List String)
  deriving DecidableEq, Repr

namespace Slot

/-- Where a slot holds the value of a name, if it does: `none` in a slot of one value, the number
    of the function, counted from 1, in a group. -/
def member? (name : String) : Slot → Option (Option Nat)
  | single bound => if bound = name then some none else none
  | group names => (names.findIdx? fun bound => bound = name).map fun i => some (i + 1)

/-- The number of the first slot that holds the value of a name, counted from 1, and where it holds
    it. -/
def place? (name : String) : List Slot → Option (Nat × Option Nat)
  | [] => none
  | slot :: rest =>
    match slot.member? name with
    | some sibling => some (1, sibling)
    | none => (place? name rest).map fun (depth, sibling) => (depth + 1, sibling)

end Slot

/-! ## 2. Trees -/

namespace Indexing

/-- Placing a name ends with an error. -/
def fail {α : Type} (cause : Cause) (position : Position) : Except CompileError α :=
  .error ⟨cause, position⟩

/-- The names of the functions of a group. -/
def groupNames : List Node → Except CompileError (List String)
  | [] => return []
  | .letRecArm _ f _ _ _ _ :: rest => return f :: (← groupNames rest)
  | other :: _ => fail .notAFunctionDefinition other.position

end Indexing

open Indexing

mutual

/-- The tree with its references replaced by their places in an environment. -/
def Node.index (slots : Scope Slot) : Node → Except CompileError Node
  | .reference m x =>
    match Slot.place? x slots.toList with
    | some (depth, sibling) => return .indexed m depth sibling
    | none => fail (.notInEnvironment x) m.position
  | .lambda m x ascription body => do
    return .lambda m x ascription (← body.index (slots.extend (.single x)))
  | .letIn m x ascription value body => do
    let value ← value.index slots
    return .letIn m x ascription value (← body.index (slots.extend (.single x)))
  | .letRec m arms body => do
    let group := slots.extend (.group (← groupNames arms))
    let arms ← indexGroup group arms
    return .letRec m arms (← body.index group)
  | .top m e => do return .top m (← e.index slots)
  | .letRecArm m f x parameterAscription resultAscription body => do
    return .letRecArm m f x parameterAscription resultAscription (← body.index slots)
  | .application m function argument => do
    let function ← function.index slots
    return .application m function (← argument.index slots)
  | .conditional m condition thenBranch elseBranch => do
    let condition ← condition.index slots
    let thenBranch ← thenBranch.index slots
    return .conditional m condition thenBranch (← elseBranch.index slots)
  | .binary m operator lhs rhs => do
    let lhs ← lhs.index slots
    return .binary m operator lhs (← rhs.index slots)
  | .unary m operator operand => do return .unary m operator (← operand.index slots)
  | .sequence m statements => do return .sequence m (← indexAll slots statements)
  | .tuple m elements => do return .tuple m (← indexAll slots elements)
  | .projection m index arity target => do return .projection m index arity (← target.index slots)
  | .matchWith m scrutinee arms => do
    let scrutinee ← scrutinee.index slots
    return .matchWith m scrutinee (← indexAll slots arms)
  | .matchArm m pattern body => do
    let pattern ← pattern.index slots
    return .matchArm m pattern (← body.index slots)
  | .dataType m d constructors body => do
    let constructors ← indexAll slots constructors
    return .dataType m d constructors (← body.index slots)
  | .patternTuple m elements => do return .patternTuple m (← indexAll slots elements)
  | .patternConstructor m c arguments tag => do
    return .patternConstructor m c (← indexAll slots arguments) tag
  | .literal m v => return .literal m v
  | .builtin m b => return .builtin m b
  | .dataConstructor m c parameters tag => return .dataConstructor m c parameters tag
  | .patternBinder m x => return .patternBinder m x
  | .patternLiteral m v => return .patternLiteral m v
  | .indexed m depth sibling => return .indexed m depth sibling

/-- Trees in the same environment. -/
def Node.indexAll (slots : Scope Slot) : List Node → Except CompileError (List Node)
  | [] => return []
  | n :: ns => do
    let n ← n.index slots
    return n :: (← Node.indexAll slots ns)

/-- The functions of a group whose slot the environment holds; the parameter of a function has a
    slot of its own. -/
def Node.indexGroup (group : Scope Slot) : List Node → Except CompileError (List Node)
  | [] => return []
  | .letRecArm m f x parameterAscription resultAscription body :: rest => do
    let body ← body.index (group.extend (.single x))
    let arm := .letRecArm m f x parameterAscription resultAscription body
    return arm :: (← Node.indexGroup group rest)
  | other :: _ => fail .notAFunctionDefinition other.position

end

/-- The program with its references replaced by their places. -/
def Node.resolveIndices (n : Node) : Except CompileError Node := n.index .empty

end ClosureML
