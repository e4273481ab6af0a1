import ClosureML.Compile
import ClosureML.Text.Terminal

/-!
# Command lines

A command line names the file to compile, and may name a file for the result (`-o`, `--output`), a
stage to stop behind (`--stage`), a format (`--format`), and ask for plain text (`--no-color`). The
value of an option stands behind it, or in the same argument behind `=`; behind `-o` it may follow
at once. Behind the argument `--` every argument is a file name.

An option with its value is *pending* until the next argument shows that it is complete; only then
is it looked at. So an argument that is not known at all is reported before a bad value that stands
before it.

* `Parameter` are the things that can be given, `UsageError` what can be wrong with a command line;
* `Arguments.parse` reads a command line.
-/

namespace ClosureML

namespace CommandLine

/-! ## 1. Parameters and errors -/

/-- What a command line can give. -/
inductive Parameter where
  | input
  | output
  | stage
  | format
  | noColour
  deriving DecidableEq, Repr

/-- How a parameter is named in messages. -/
def Parameter.text : Parameter → String
  | input => "<INPUT>"
  | output => "--output <OUTPUT>"
  | stage => "--stage <STAGE>"
  | format => "--format <FORMAT>"
  | noColour => "--no-color"

/-- The parameter with a long name that a value follows. -/
def Parameter.ofLongName? : String → Option Parameter
  | "output" => some output
  | "stage" => some stage
  | "format" => some format
  | _ => none

/-- What is wrong with a command line, or with the file that it names. -/
inductive UsageError where
  | unexpectedArgument (argument : String)
  | unexpectedValue (value : String) (parameter : Parameter)
  | missingValue (parameter : Parameter)
  | invalidValue (value : String) (parameter : Parameter)
  | repeated (parameter : Parameter)
  | missingInput
  | notAFile (path : String)
  | notReadable (path reason : String)
  deriving DecidableEq, Repr

/-- How the command is called. -/
def usage : String :=
  Style.paintAll [.bold, .underlined] "Usage:" ++ " " ++ Style.paintAll [.bold] "secdc"
    ++ " [OPTIONS] <INPUT>"

/-- The wording of an error, for a terminal: what is at fault is yellow, the parameter that it was
    given for is bold, and the way to call the command follows. -/
def UsageError.message (e : UsageError) : String :=
  let fault (text : String) := "'" ++ Style.paintAll [.yellow] text ++ "'"
  let named (parameter : Parameter) := "'" ++ Style.paintAll [.bold] parameter.text ++ "'"
  let wording :=
    match e with
    | unexpectedArgument argument => "unexpected argument " ++ fault argument ++ " found"
    | unexpectedValue value parameter =>
      "unexpected value " ++ fault value ++ " for " ++ named parameter
        ++ " found; no more were expected"
    | missingValue parameter =>
      "a value is required for " ++ fault parameter.text ++ " but none was supplied"
    | invalidValue value parameter => "invalid value " ++ fault value ++ " for " ++ named parameter
    | repeated parameter =>
      "the argument " ++ fault parameter.text ++ " cannot be used multiple times"
    | missingInput =>
      "the following required arguments were not provided:\n  " ++ Parameter.input.text
    | notAFile path => "Input path '" ++ path ++ "' is not a file!"
    | notReadable path reason => "Failed to read '" ++ path ++ "': " ++ reason
  Style.paintAll [.bold, .red] "error:" ++ " " ++ wording ++ "\n\n" ++ usage

/-- The message in the ink given. Plain, it is what a terminal would show of it, also where the
    command line itself holds control characters. -/
def UsageError.report (e : UsageError) : Ink → String
  | .plain => shownText e.message
  | .coloured => e.message

/-! ## 2. Settings -/

/-- What a command line has given so far. -/
structure Settings where
  input : Option String
  output : Option String
  stage : Option Stage
  format : Option OutputFormat
  noColour : Bool
  deriving DecidableEq, Repr

/-- Nothing has been given. -/
def Settings.empty : Settings := ⟨none, none, none, none, false⟩

/-- The settings with one more parameter that takes a value. -/
def Settings.give (s : Settings) (parameter : Parameter) (value : Option String) :
    Except UsageError Settings :=
  match value with
  | none => .error (.missingValue parameter)
  | some v =>
    match parameter with
    | .input =>
      if v = "" then .error (.missingValue .input) else .ok { s with input := some v }
    | .output =>
      if s.output.isSome then .error (.repeated .output)
      else if v = "" then .error (.missingValue .output)
      else .ok { s with output := some v }
    | .stage =>
      if s.stage.isSome then .error (.repeated .stage)
      else if v = "" then .error (.missingValue .stage)
      else
        match Stage.ofText? v with
        | some stage => .ok { s with stage := some stage }
        | none => .error (.invalidValue v .stage)
    | .format =>
      if s.format.isSome then .error (.repeated .format)
      else if v = "" then .error (.missingValue .format)
      else
        match OutputFormat.ofText? v with
        | some format => .ok { s with format := some format }
        | none => .error (.invalidValue v .format)
    | .noColour => .error (.unexpectedValue v .noColour)

/-- The settings with the flag for plain text. -/
def Settings.giveNoColour (s : Settings) : Except UsageError Settings :=
  if s.noColour then .error (.repeated .noColour) else .ok { s with noColour := true }

/-! ## 3. Reading -/

/-- Where a reader of a command line stands: the settings so far; the parameter that is pending,
    with its value if it has one already; whether the file has been named; and whether all that
    follows are file names. -/
structure Reading where
  settings : Settings
  pending : Option (Parameter × Option String)
  inputNamed : Bool
  onlyFiles : Bool

/-- The reader that has read nothing. -/
def Reading.start : Reading := ⟨.empty, none, false, false⟩

/-- The pending parameter is complete. -/
def Reading.settle (r : Reading) : Except UsageError Reading :=
  match r.pending with
  | none => .ok r
  | some (parameter, value) => do
    return { r with settings := ← r.settings.give parameter value, pending := none }

/-- A parameter with a value in the same argument, or one whose value is to follow. -/
def Reading.takeOption (r : Reading) (parameter : Parameter) (value : Option String) :
    Except UsageError Reading := do
  let r ← r.settle
  match value with
  | some v => return { r with settings := ← r.settings.give parameter (some v) }
  | none => return { r with pending := some (parameter, none) }

/-- An argument that names a file; there can be one. -/
def Reading.takeFile (r : Reading) (path : String) : Except UsageError Reading :=
  if r.inputNamed then .error (.unexpectedArgument path)
  else do
    let r ← r.settle
    return { r with pending := some (.input, some path), inputNamed := true }

/-- A text up to its first `=`, and what stands behind it. -/
def splitAtEquals (cs : List Char) : String × Option String :=
  match cs.dropWhile (· ≠ '=') with
  | [] => (String.ofList cs, none)
  | _ :: value => (String.ofList (cs.takeWhile (· ≠ '=')), some (String.ofList value))

/-- An argument that begins with `--`, given without it. -/
def Reading.takeLong (r : Reading) (cs : List Char) : Except UsageError Reading :=
  let (name, value) := splitAtEquals cs
  match Parameter.ofLongName? name with
  | some parameter => r.takeOption parameter value
  | none =>
    if name = "no-color" then
      match value with
      | some v => .error (.unexpectedValue v .noColour)
      | none => do
        let r ← r.settle
        return { r with settings := ← r.settings.giveNoColour }
    else .error (.unexpectedArgument ("--" ++ name))

/-- An argument that begins with a single dash: the letter behind it, and the rest. -/
def Reading.takeShort (r : Reading) (letter : Char) (rest : List Char) :
    Except UsageError Reading :=
  if letter = 'o' then
    match rest with
    | [] => r.takeOption .output none
    | '=' :: value => r.takeOption .output (some (String.ofList value))
    | value => r.takeOption .output (some (String.ofList value))
  else .error (.unexpectedArgument ("-" ++ letter.toString))

/-- An argument without a dash in front: the value that is waited for, or else a file. -/
def Reading.takePlain (r : Reading) (argument : String) : Except UsageError Reading :=
  match r.pending with
  | some (parameter, none) => .ok { r with pending := some (parameter, some argument) }
  | _ => r.takeFile argument

/-- One more argument. -/
def Reading.take (r : Reading) (argument : String) : Except UsageError Reading :=
  if r.onlyFiles then r.takeFile argument
  else
    match argument.toList with
    | ['-', '-'] => .ok { r with onlyFiles := true }
    | '-' :: '-' :: cs => r.takeLong cs
    | '-' :: letter :: rest => r.takeShort letter rest
    | _ => r.takePlain argument

/-! ## 4. Arguments -/

/-- What a complete command line asks for. -/
structure Arguments where
  input : String
  output : Option String
  stage : Option Stage
  format : OutputFormat
  noColour : Bool
  deriving DecidableEq, Repr

/-- Reads a command line. The format is that of a listing unless another is given. -/
def Arguments.parse (arguments : List String) : Except UsageError Arguments := do
  let r ← arguments.foldlM Reading.take .start
  let s := (← r.settle).settings
  match s.input with
  | none => throw .missingInput
  | some input => return ⟨input, s.output, s.stage, s.format.getD .listing, s.noColour⟩

end CommandLine

end ClosureML
