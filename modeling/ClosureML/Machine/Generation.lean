import ClosureML.Diagnostic.Report
import ClosureML.Machine.Instruction
import ClosureML.Names.Supply
import ClosureML.Syntax.Node

/-!
# Generation of code

A tree whose references are places in the environment becomes a program. The code of an expression
pushes its value. The bodies of functions, of `let` and of groups become blocks of their own, which
end by going back; a `let` is the application of such a block to the value.

* `Node.code` is the code of a tree, which adds its blocks to those made so far;
* `Node.generate` is the program of a tree.
-/

namespace ClosureML

namespace Machine

/-! ## 1. Blocks and labels -/

/-- What generation has made so far: the labels it has given, and the blocks in the order of their
    making, behind the main block. -/
structure CodeState where
  labels : Supply
  blocks : List Block
  deriving DecidableEq, Repr

/-- Nothing has been made yet. -/
def CodeState.empty : CodeState := ⟨.empty, []⟩

/-- Generation gives labels and makes blocks, and may end with an error. -/
abbrev Generate := EStateM CompileError CodeState

/-- Generation ends with an error. -/
def fail {α : Type} (cause : Cause) (position : Position) : Generate α := throw ⟨cause, position⟩

/-- A new label. -/
def freshLabel (stem : String) : Generate Label :=
  modifyGet fun s =>
    let (label, labels) := s.labels.label stem
    (label, { s with labels })

/-- A new block that runs some code and goes back. -/
def addBlock (stem : String) (code : List Instruction) : Generate Label := do
  let label ← freshLabel stem
  modify fun s => { s with blocks := s.blocks ++ [⟨label, code ++ [.leave]⟩] }
  return label

/-- New blocks for several pieces of code. -/
def addBlocks (stem : String) : List (List Instruction) → Generate (List Label)
  | [] => return []
  | code :: rest => do
    let label ← addBlock stem code
    return label :: (← addBlocks stem rest)

/-! ## 2. Pieces of code -/

/-- The code of statements in a row: the values of all but the last are discarded. -/
def inSequence : List (List Instruction) → List Instruction
  | [] => []
  | [code] => code
  | code :: rest => code ++ .pop 1 :: inSequence rest

/-- The code of a place in the environment. -/
def accessPlace (depth : Nat) : Option Nat → List Instruction
  | none => [.access depth]
  | some sibling => [.access depth, .focus sibling]

/-- The code of a conditional. -/
def branches (condition thenCode elseCode : List Instruction) : Generate (List Instruction) := do
  let thenLabel ← freshLabel "tr"
  let elseLabel ← freshLabel "fl"
  let endLabel ← freshLabel "end"
  return condition ++ [.branch .brfl elseLabel, .label thenLabel] ++ thenCode
    ++ [.branch .br endLabel, .label elseLabel] ++ elseCode ++ [.label endLabel]

end Machine

/-! ## 3. Trees -/

open Machine

mutual

/-- The code of a tree. Children go before their node, from left to right, and the first error in
    this order ends generation. -/
def Node.code : Node → Generate (List Instruction)
  | .top _ e => do return (← e.code) ++ [.halt]
  | .literal _ v => return [.const v.word]
  | .indexed _ depth sibling => return accessPlace depth sibling
  | .builtin _ b => return [.builtin b]
  | .application _ function argument => do
    let function ← function.code
    let argument ← argument.code
    return function ++ argument ++ [.apply]
  | .lambda _ _ _ body => do
    let block ← addBlock "lam" (← body.code)
    return [.closure block]
  | .letIn _ _ _ value body => do
    let value ← value.code
    let block ← addBlock "let" (← body.code)
    return .closure block :: value ++ [.apply]
  | .letRecArm _ _ _ _ _ body => body.code
  | .letRec _ arms body => do
    let arms ← codes arms
    let body ← body.code
    let members ← addBlocks "clos" arms
    let block ← addBlock "letrec" body
    return [.closure block, .closures members, .apply]
  | .sequence _ statements => return inSequence (← codes statements)
  | .conditional _ condition thenBranch elseBranch => do
    let condition ← condition.code
    let thenBranch ← thenBranch.code
    let elseBranch ← elseBranch.code
    branches condition thenBranch elseBranch
  | .binary _ operator lhs rhs => do
    let lhs ← lhs.code
    let rhs ← rhs.code
    return lhs ++ rhs ++ [.binary operator]
  | .unary _ operator operand => do return (← operand.code) ++ [.unary operator]
  | .reference m x => fail (.unresolvedVariable x) m.position
  | .tuple m elements => do
    let _ ← codes elements
    fail (.notLowered .tuple) m.position
  | .projection m _ _ target => do
    let _ ← target.code
    fail (.notLowered .projection) m.position
  | .matchWith m scrutinee arms => do
    let _ ← scrutinee.code
    let _ ← codes arms
    fail (.notLowered .matchWith) m.position
  | .matchArm m pattern body => do
    let _ ← pattern.code
    let _ ← body.code
    fail (.notLowered .matchArm) m.position
  | .dataType m _ constructors body => do
    let _ ← codes constructors
    let _ ← body.code
    fail (.notLowered .dataType) m.position
  | .dataConstructor m .. => fail (.notLowered .dataConstructor) m.position
  | .patternBinder m .. => fail (.notLowered .patternBinder) m.position
  | .patternTuple m elements => do
    let _ ← codes elements
    fail (.notLowered .patternTuple) m.position
  | .patternLiteral m .. => fail (.notLowered .patternLiteral) m.position
  | .patternConstructor m _ arguments _ => do
    let _ ← codes arguments
    fail (.notLowered .patternConstructor) m.position

/-- The codes of several trees. -/
def Node.codes : List Node → Generate (List (List Instruction))
  | [] => return []
  | n :: ns => do
    let code ← n.code
    return code :: (← Node.codes ns)

end

/-- The program of a tree: the main block holds the code of the tree, the others are those that it
    makes. -/
def Node.generate (n : Node) : Except CompileError Program :=
  match n.code.run .empty with
  | .ok code s => .ok ⟨⟨"main", code⟩ :: s.blocks⟩
  | .error e _ => .error e

end ClosureML
