import ClosureML.Machine.Instruction
import ClosureML.Text.Blank

/-!
# Assembly listings

The listing of a program has a line for the label of each block and one for each instruction,
indented by four blanks. The operands of an instruction stand from column ten on behind the name of
the operation; blanks at the end of a line are dropped. A place in a block has its own line, and
blocks are separated by an empty line.

* `Instruction.listed` is the line of an instruction, `Program.listing` the whole listing.
-/

namespace ClosureML

/-- The operands of an instruction that is listed by the name of its operation. -/
def Instruction.operands : Instruction → String
  | pop n | access n | focus n => toString n
  | const n => toString n
  | closure block => block
  | closures blocks => " ".intercalate blocks
  | builtin b => b.text
  | _ => ""

/-- The name of an operation, filled up with blanks to ten characters. -/
def padded (opcode : String) : String := opcode.pushn ' ' (10 - opcode.length)

/-- The line of an instruction. -/
def Instruction.listed : Instruction → String
  | label l => "  " ++ l ++ ":"
  | binary operator => "    " ++ operator.mnemonic
  | unary operator => "    " ++ operator.mnemonic
  | branch kind target => "    " ++ kind.text ++ " " ++ target
  | other => "    " ++ trimEnd (padded other.opcode ++ other.operands)

/-- The lines of a block. -/
def Block.listed (b : Block) : List String :=
  (b.label ++ ":") :: b.instructions.map Instruction.listed

/-- The listing of a program. -/
def Program.listing (p : Program) : String :=
  "\n".intercalate
    (p.blocks.map fun b => String.join (b.listed.map fun line => line ++ "\n"))

end ClosureML
