import Pseudocode.Command.Run

/-!
# The program

Collects what a run of the command line needs, and carries out what it decides.  No socket is
opened: a run that would serve stops at once.
-/

namespace Pseudocode

namespace Terminal

/-- The environment variables that count. -/
def variableNames : List String :=
  ["PSEINT_ADDR", "PSEINT_HISTORY", "PSEINT_STRICT", "PSEINT_MAX_BYTES"]

/-- The text that bytes encode. -/
def textOfBytes (bytes : ByteArray) : String :=
  String.ofList (Text.lossy (Text.decode bytes.toList))

/-- Reads a file. -/
def readPath (path : String) : IO (Except FileError String) := do
  try
    return .ok (textOfBytes (← IO.FS.readBinFile path))
  catch e =>
    match e with
    | .noFileOrDirectory .. => return .error .notFound
    | .inappropriateType .. => return .error .isDirectory
    | _ => return .error .invalidPath

/-- The value of an environment variable under its name. -/
def readVariable (name : String) : IO (Option (String × String)) := do
  return (← IO.getEnv name).map (name, ·)

/-- The files that arguments may name. -/
def readFiles (args : List String) : IO Files := do
  let found ← (Settings.defaultFiles ++ args).mapM fun path => return (path, ← readPath path)
  return ⟨fun path => (found.lookup path).getD (.error .notFound), fun _ => none⟩

/-- The text of standard input. -/
def readInput : IO String := do
  let stdin ← IO.getStdin
  return textOfBytes (← stdin.readBinToEnd)

/-- Carries out what a run decides, and gives the exit status. -/
def carryOut (o : Command.Outcome) : IO UInt32 := do
  IO.eprint o.stderr
  IO.print o.stdout
  for (path, content) in o.written do
    IO.FS.writeFile path content
  match o.error with
  | none => return 0
  | some .conversionFailed => return 1
  | some e =>
    IO.eprintln ("error: " ++ e.message)
    return 1

/-- Runs the command line, and gives the exit status. -/
def run (args : List String) : IO UInt32 := do
  let readsInput := match Command.Invocation.ofArgs args with
    | .ok invocation => invocation.readsInput
    | .error _ => false
  let stdin ← if readsInput then readInput else pure ""
  let env ← variableNames.filterMapM readVariable
  let files ← readFiles args
  -- the service stops before anything is recorded, so the clock is never read
  carryOut (Command.run ⟨"dev", stdin, files, env, true, .steady 0 0⟩ args)

end Terminal

end Pseudocode

/-- The entry point. -/
def main (args : List String) : IO UInt32 := Pseudocode.Terminal.run args
