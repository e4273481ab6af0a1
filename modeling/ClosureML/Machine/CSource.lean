import ClosureML.Machine.Instruction

/-!
# Programs as C source

A program can be written as C source for a machine whose operations are declared in the header
`secd.h`. Every block becomes a function named after its label, and every instruction a call.

* `Instruction.call` is the call for an instruction;
* `Program.cSource` is the whole text: the declarations of all functions, then their definitions.
-/

namespace ClosureML

/-- The function that a block becomes. -/
def functionName (label : Label) : String := "secd_" ++ label

/-- The arguments of an instruction that is called by the name of its operation. -/
def Instruction.arguments : Instruction → String
  | pop n | access n | focus n => toString n
  | closure block => functionName block
  | closures blocks => ", ".intercalate (blocks.map functionName)
  | builtin b => b.text
  | binary operator => operator.text
  | unary operator => operator.text
  | label l => l
  | _ => ""

/-- The call for an instruction. A conditional branch is one that tests for zero. -/
def Instruction.call : Instruction → String
  | const n => "Iconstint(" ++ toString n ++ ");"
  | branch .br target => "Ibr(" ++ target ++ ");"
  | branch .brfl target => "Ibr1(0 ==, " ++ target ++ ");"
  | other => "I" ++ other.opcode ++ "(" ++ other.arguments ++ ");"

/-- The head of the function that a block becomes. -/
def Block.functionHead (b : Block) : String := "void " ++ functionName b.label ++ "(void)"

/-- The function that a block becomes. -/
def Block.cFunction (b : Block) : String :=
  b.functionHead ++ " \x7b\n" ++
    String.join (b.instructions.map fun i => "    " ++ i.call ++ "\n") ++ "\x7d\n"

/-- The C source of a program. -/
def Program.cSource (p : Program) : String :=
  "#include \"secd.h\"\n\n" ++ "\n".intercalate (p.blocks.map fun b => b.functionHead ++ ";")
    ++ "\n\n" ++ "\n".intercalate (p.blocks.map Block.cFunction)

end ClosureML
