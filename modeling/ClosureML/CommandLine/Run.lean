import ClosureML.CommandLine.Arguments
import ClosureML.CommandLine.Directory

/-!
# Running the command

The command compiles the file that its command line names. The result goes to standard output, or
into a file as a terminal would show it. The command ends with 0 when all went well, with 1 when
the program has an error or the result cannot be written, and with 2 when the command line or the
input file is at fault.

* `Outcome` is how the command ends, `Outcome.ofSource` how it does for a source that was read;
* `respond` runs the command in a directory of files.
-/

namespace ClosureML

namespace CommandLine

/-- How the command ends: its exit code, its output and its messages, and the file that it still
    has to write. -/
structure Outcome where
  exit : Nat
  stdout : String
  stderr : String
  file : Option (String × String)
  deriving DecidableEq, Repr

/-- The ink of what compilation says, on a terminal that takes the ink given. -/
def Arguments.ink (arguments : Arguments) (ink : Ink) : Ink :=
  if arguments.noColour then .plain else ink

namespace Outcome

/-- The command line or the input is at fault. -/
def ofUsage (ink : Ink) (e : UsageError) : Outcome := ⟨2, "", e.report ink, none⟩

/-- The result could not be written. -/
def ofWriteError (path message : String) : Outcome :=
  ⟨1, "", "Failed to write '" ++ path ++ "': " ++ message ++ "\n", none⟩

/-- The source has been read. -/
def ofSource (ink : Ink) (arguments : Arguments) (source : Source) : Outcome :=
  match source.compile ink arguments.stage arguments.format with
  | .error (.error e) => ⟨1, "", e.report.render ink source, none⟩
  | .error .defect => ⟨1, "", "", none⟩
  | .ok output =>
    match arguments.output with
    | some path => ⟨0, "", "", some (path, shownText output.text)⟩
    | none => ⟨0, output.text, "", none⟩

/-- The input file has been read, or it cannot be. `--no-color` takes the colours from what
    compilation says, not from what is said about the input. -/
def ofInput (ink : Ink) (arguments : Arguments) (contents : Except UsageError ByteArray) :
    Outcome :=
  match contents with
  | .error e => ofUsage ink e
  | .ok bytes =>
    match String.fromUTF8? bytes with
    | none => ofUsage ink (.notReadable arguments.input "stream did not contain valid UTF-8")
    | some text => ofSource (arguments.ink ink) arguments ⟨text, .file arguments.input⟩

end Outcome

/-- Runs the command in a directory, where the terminal takes the ink given, and gives how it ends
    and the directory behind it. -/
def respond (directory : Directory) (ink : Ink) (commandLine : List String) :
    Outcome × Directory :=
  match Arguments.parse commandLine with
  | .error e => (.ofUsage ink e, directory)
  | .ok arguments =>
    let contents := (directory.read? arguments.input).elim (.error (.notAFile arguments.input)) .ok
    let outcome := Outcome.ofInput ink arguments contents
    match outcome.file with
    | none => (outcome, directory)
    | some (path, text) =>
      match directory.write path text.toUTF8 with
      | .ok directory => ({ outcome with file := none }, directory)
      | .error e => (.ofWriteError path e.message, directory)

end CommandLine

end ClosureML
