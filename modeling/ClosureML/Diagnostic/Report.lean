import ClosureML.Diagnostic.Cause
import ClosureML.Text.Style

/-!
# Errors and how they are reported

A compile error is a cause with a position. It is reported with the source line that the position
lies in and a caret under the column.

* `CompileError` is an error of a pass, `CompileError.report` what is told about it;
* `Report.text` is the one-line form, `Report.render` the form with the source line;
* `Failure` is how a pass over an arbitrary tree ends without a result.
-/

namespace ClosureML

/-! ## 1. Errors -/

/-- An error in a program: what is wrong, and where. -/
structure CompileError where
  cause : Cause
  position : Position
  deriving DecidableEq, Repr

/-- How a pass ends that gives no result. A tree that no source text leads to can break what a pass
    relies on (`defect`); everything else is an error in the program. -/
inductive Failure where
  | error (error : CompileError)
  | defect
  deriving DecidableEq, Repr

/-! ## 2. Reports -/

/-- What is told about an error. `raisedAt` names the place in the compiler that found it, when it
    is to be shown. -/
structure Report where
  kind : ErrorKind
  position : Position
  message : String
  raisedAt : Option String
  deriving DecidableEq, Repr

/-- The report of an error, without `raisedAt`. The feature `error-backtrace`, which is on by
    default, puts a place in the compiler there, and so adds a last line to every report; that line
    tells of the text of the compiler and not of the program, and is left out. -/
def CompileError.report (e : CompileError) : Report :=
  ⟨e.cause.kind, e.position, e.cause.message, none⟩

namespace Report

/-- The report in one line. -/
def text (r : Report) : String := s!"{r.kind.text} at {r.position.text}: {r.message}"

/-- The line that names the kind of error and says what is wrong. -/
def title (ink : Ink) (r : Report) : String :=
  ink.paint .boldRed ("error[" ++ r.kind.text ++ "]") ++ ink.paint .bold ":" ++ " "
    ++ ink.paint .bold r.message

/-- The lines that show a source line: an empty one, the line behind its number, and a caret below
    the column. -/
def excerpt (ink : Ink) (p : Position) (line : String) : List String :=
  let number := toString p.line
  let margin := "".pushn ' ' number.length
  let bar := ink.paint .blue "|"
  [margin ++ " " ++ bar,
    ink.paint .blue number ++ " " ++ bar ++ " " ++ line,
    margin ++ " " ++ bar ++ " " ++ "".pushn ' ' (p.column - 1) ++ ink.paint .boldRed "^"]

/-- The lines that say where the error lies; a synthetic position lies in no line. -/
def location (ink : Ink) (source : Source) (p : Position) : List String :=
  let place := "  " ++ ink.paint .blue "-->" ++ " " ++ source.origin.text
  if p = .synthetic then [place]
  else (place ++ ":" ++ p.text) :: ((source.line? p.line).map (excerpt ink p)).getD []

/-- The line that names the place in the compiler. -/
def backtrace (ink : Ink) (raisedAt : String) : String :=
  "  " ++ ink.paint .blue "backtrace:" ++ " " ++ ink.paint .white raisedAt

/-- The report with the source line that it is about. -/
def render (ink : Ink) (source : Source) (r : Report) : String :=
  let lines := r.title ink :: location ink source r.position ++
    (r.raisedAt.map (backtrace ink)).toList
  String.join (lines.map fun line => line ++ "\n")

end Report

end ClosureML
