import ClosureML.Syntax.Primitive
import ClosureML.Table

/-!
# Instructions of the closure machine

The machine runs blocks of instructions with a stack of values, an environment, and the frames of
the blocks that wait for a result. A program is a list of blocks, of which the first is run first.

* `Instruction` are the instructions, `Block` and `Program` what they make up;
* `Instruction.opcode` is the name of an operation, `Instruction.references` are the blocks that
  it makes closures of;
* `Program.main?` is the block with the number 0, `Program.block?` the one with a label.
-/

namespace ClosureML

/-! ## 1. Instructions -/

/-- The name of a block, or of a place in one. -/
abbrev Label := String

/-- How a branch is taken: always (`br`), or when the value popped from the stack is zero
    (`brfl`). -/
inductive BranchKind where
  | br
  | brfl
  deriving DecidableEq, Repr

/-- The written form. -/
def BranchKind.text : BranchKind → String
  | br => "br"
  | brfl => "brfl"

/-- An instruction.

    `halt` stops the machine, and the top of the stack is the result; `pop` discards values;
    `apply` pops an argument and a closure and enters the closure's block; `access` pushes the
    slot of the environment at a depth counted from 1; `focus` pops a group of closures and pushes
    its member with a number counted from 1; `leave` goes back to the waiting block and its
    environment; `closure` makes a closure of a block and `closures` a group of closures that share
    their environment; `label` marks a place that a `branch` goes to. -/
inductive Instruction where
  | halt
  | pop (count : Nat)
  | apply
  | const (value : Int)
  | access (depth : Nat)
  | focus (sibling : Nat)
  | leave
  | closure (block : Label)
  | closures (blocks : List Label)
  | builtin (builtin : Builtin)
  | binary (operator : BinaryOperator)
  | unary (operator : UnaryOperator)
  | branch (kind : BranchKind) (target : Label)
  | label (label : Label)
  deriving DecidableEq, Repr

namespace Instruction

/-- The name of the operation. -/
def opcode : Instruction → String
  | halt => "halt"
  | pop _ => "pop"
  | apply => "apply"
  | const _ => "const"
  | access _ => "access"
  | focus _ => "focus"
  | leave => "return"
  | closure _ => "closure"
  | closures _ => "closures"
  | builtin _ => "builtin"
  | binary _ => "binary"
  | unary _ => "unary"
  | branch _ _ => "branch"
  | label _ => "label"

/-- The blocks that the instruction makes closures of. -/
def references : Instruction → List Label
  | closure block => [block]
  | closures blocks => blocks
  | _ => []

end Instruction

/-! ## 2. Blocks and programs -/

/-- A list of instructions that is entered at its start. -/
structure Block where
  label : Label
  instructions : List Instruction
  deriving DecidableEq, Repr

/-- The blocks that some instructions make closures of. -/
def Block.references (b : Block) : List Label := b.instructions.flatMap Instruction.references

/-- The blocks of a program, the one that is run first in front. -/
structure Program where
  blocks : List Block
  deriving DecidableEq, Repr

namespace Program

/-- The blocks by their numbers, which count from 0 in the order of the blocks. -/
def table (p : Program) : Table Block := ⟨p.blocks.toArray⟩

/-- The block that is run first: the one with the number 0. -/
def main? (p : Program) : Option Block := p.table.get? 0

theorem main?_eq_head? (p : Program) : p.main? = p.blocks.head? := by
  rw [main?, Table.get?, table, List.getElem?_toArray]
  exact List.head?_eq_getElem?.symm

theorem mem_of_main? {p : Program} {b : Block} (h : p.main? = some b) : b ∈ p.blocks :=
  List.mem_of_head? (p.main?_eq_head? ▸ h)

/-- The first block with a label. -/
def block? (p : Program) (label : Label) : Option Block :=
  p.blocks.find? fun b => b.label = label

end Program

end ClosureML
