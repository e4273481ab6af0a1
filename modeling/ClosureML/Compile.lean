import ClosureML.Lowering.Tuple
import ClosureML.Machine.CSource
import ClosureML.Machine.Generation
import ClosureML.Machine.Listing
import ClosureML.Names.Indexing
import ClosureML.Names.Resolution
import ClosureML.Syntax.Parser
import ClosureML.Syntax.Printer
import ClosureML.Types.Inference

/-!
# The compiler

A program passes through reading, resolution of names, inference of types, unification, lowering,
placing of names in the environment, and generation of code. Compilation can be stopped behind one
of the stages, whose result is then printed.

* `Stage` are the stages that compilation can stop behind, `OutputFormat` the forms of a program;
* `Source.read` is the tree of a source, `Source.build` its program, and `Source.compile` what
  compilation prints.
-/

namespace ClosureML

/-! ## 1. Stages and formats -/

/-- The text with its ASCII capitals made small. -/
def asciiLower (text : String) : String := String.ofList (text.toList.map Char.toLower)

/-- The stages that compilation can stop behind. To stop behind `code`, the last one, is not to
    stop. -/
inductive Stage where
  | naming
  | typing
  | unification
  | lowering
  | indexing
  | code
  deriving DecidableEq, Repr

namespace Stage

/-- The written form. -/
def text : Stage → String
  | naming => "namer"
  | typing => "typer"
  | unification => "unify"
  | lowering => "patmat"
  | indexing => "debruijn"
  | code => "codegen"

/-- Every stage. -/
def all : List Stage := [naming, typing, unification, lowering, indexing, code]

/-- The stage with the given name. -/
def ofText? (name : String) : Option Stage := all.find? fun s => s.text = name

/-- The stage with the given name, where capitals count as small letters. -/
def ofTextIgnoringCase? (name : String) : Option Stage := ofText? (asciiLower name)

theorem ofText?_text (s : Stage) : ofText? s.text = some s := by cases s <;> decide

end Stage

/-- The forms that a program can be written in. -/
inductive OutputFormat where
  | listing
  | cSource
  deriving DecidableEq, Repr

namespace OutputFormat

/-- The written form. -/
def text : OutputFormat → String
  | listing => "asm"
  | cSource => "c"

/-- Every format. -/
def all : List OutputFormat := [listing, cSource]

/-- The format with the given name. -/
def ofText? (name : String) : Option OutputFormat := all.find? fun f => f.text = name

/-- The format with the given name, where capitals count as small letters. -/
def ofTextIgnoringCase? (name : String) : Option OutputFormat := ofText? (asciiLower name)

theorem ofText?_text (f : OutputFormat) : ofText? f.text = some f := by cases f <;> decide

end OutputFormat

/-- The program in a format. -/
def Program.written (p : Program) : OutputFormat → String
  | .listing => p.listing
  | .cSource => p.cSource

/-! ## 2. Compilation -/

/-- What compilation gives: what a stage has made, printed, or the program. -/
inductive Output where
  | dump (stage : Stage) (text : String)
  | program (text : String)
  deriving DecidableEq, Repr

/-- The text of an output. -/
def Output.text : Output → String
  | dump _ text => text
  | program text => text

/-- An error in the program, as the failure of a pass. -/
def orFail {α : Type} : Except CompileError α → Except Failure α
  | .ok a => .ok a
  | .error e => .error (.error e)

/-- The printed form of a typed tree with its equations. -/
def Typing.print (ink : Ink) (typing : Typing) : String :=
  typing.tree.print ink ++ "\nconstraints:\n"
    ++ "\n".intercalate (typing.constraints.map Constraint.text) ++ "\n"

/-- The tree of a source. -/
def Source.read (s : Source) : Except Failure Node := orFail s.parse

/-- The program of a source. -/
def Source.build (s : Source) : Except Failure Program := do
  let tree ← s.read
  let tree ← orFail tree.resolveNames
  let typing ← orFail tree.inferTypes
  let tree ← orFail typing.unify
  let tree ← tree.lower
  let tree ← orFail tree.resolveIndices
  orFail tree.generate

/-- What compilation of a source prints, when it is to stop behind a stage, or else to write the
    program in a format. -/
def Source.compile (ink : Ink) (stopBehind : Option Stage) (format : OutputFormat) (s : Source) :
    Except Failure Output := do
  let tree ← s.read
  let tree ← orFail tree.resolveNames
  if stopBehind = some .naming then return .dump .naming (tree.print ink)
  let typing ← orFail tree.inferTypes
  if stopBehind = some .typing then return .dump .typing (typing.print ink)
  let tree ← orFail typing.unify
  if stopBehind = some .unification then return .dump .unification (tree.print ink)
  let tree ← tree.lower
  if stopBehind = some .lowering then return .dump .lowering (tree.print ink)
  let tree ← orFail tree.resolveIndices
  if stopBehind = some .indexing then return .dump .indexing (tree.print ink)
  return .program ((← orFail tree.generate).written format)

end ClosureML
