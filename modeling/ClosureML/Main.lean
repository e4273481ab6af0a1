import ClosureML.CommandLine.Run

/-!
# The command

Reads the command line and the file that it names, and prints or writes what compilation gives.
Colours are used on a terminal, unless `NO_COLOR` or `CLICOLOR` forbids them; `CLICOLOR_FORCE` asks
for them anywhere.
-/

namespace ClosureML.CommandLine

/-- The ink for a stream. A variable of the environment that is `0` counts as switched off. -/
def inkFor (stream : IO.FS.Stream) : IO Ink := do
  let isOn (name : String) : IO (Option Bool) := do return (← IO.getEnv name).map (· ≠ "0")
  if (← isOn "CLICOLOR_FORCE") = some true then return .coloured
  if (← isOn "NO_COLOR").isSome then return .plain
  if (← isOn "CLICOLOR") = some false then return .plain
  return if ← stream.isTty then .coloured else .plain

/-- What the system says about a file that it refuses, with the number of the error. -/
def refusal : IO.Error → String
  | .noFileOrDirectory _ code details | .interrupted _ code details
  | .alreadyExists _ code details | .invalidArgument _ code details
  | .permissionDenied _ code details | .resourceExhausted _ code details
  | .inappropriateType _ code details | .noSuchThing _ code details
  | .otherError code details | .resourceBusy code details | .resourceVanished code details
  | .unsupportedOperation code details | .hardwareFault code details
  | .unsatisfiedConstraints code details | .illegalOperation code details
  | .protocolError code details | .timeExpired code details =>
    details ++ " (os error " ++ toString code ++ ")"
  | .unexpectedEof => "unexpected end of file"
  | .userError details => details

/-- Reads the input file. -/
def readInput (path : String) : IO (Except UsageError ByteArray) := do
  try return .ok (← IO.FS.readBinFile path)
  catch e =>
    match e with
    | .permissionDenied .. => return .error (.notReadable path (refusal e))
    | _ => return .error (.notAFile path)

/-- Writes the file of an outcome, and gives how the command ends then. -/
def Outcome.finish (outcome : Outcome) : IO Outcome := do
  match outcome.file with
  | none => return outcome
  | some (path, text) =>
    try
      IO.FS.writeFile path text
      return outcome
    catch e => return .ofWriteError path (refusal e)

end ClosureML.CommandLine

open ClosureML.CommandLine

/-- Runs the command. -/
def main (commandLine : List String) : IO UInt32 := do
  let usageInk ← inkFor (← IO.getStderr)
  let outcome ←
    match Arguments.parse commandLine with
    | .error e => pure (Outcome.ofUsage usageInk e)
    | .ok arguments => do
      let contents ← readInput arguments.input
      (Outcome.ofInput (← inkFor (← IO.getStdout)) arguments contents).finish
  IO.print outcome.stdout
  IO.eprint (if outcome.exit = 2 then outcome.stderr ++ "\n" else outcome.stderr)
  return outcome.exit.toUInt32
