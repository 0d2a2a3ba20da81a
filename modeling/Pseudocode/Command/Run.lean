import Pseudocode.Catalog.Builtin
import Pseudocode.Command.Flags
import Pseudocode.Files
import Pseudocode.History.Embedded
import Pseudocode.History.Store
import Pseudocode.Report
import Pseudocode.Service.Address
import Pseudocode.Service.Answer
import Pseudocode.Settings.Basic

/-!
# The command line

A run of the command line is a function of its arguments and of what it finds around it: standard
input, the files of the working directory and the environment.

* `Invocation.ofArgs` : what arguments ask for.
* `Command.run` : what a run prints, writes and ends with.
-/

namespace Pseudocode

namespace Command

/-- What a run finds around it. -/
structure Surroundings where
  /-- The version that the program tells. -/
  version : String
  /-- The text of standard input. -/
  stdin : String
  /-- The files within reach. -/
  files : Files
  /-- The environment. -/
  env : Environment
  /-- The run is asked to stop as soon as it waits. -/
  cancelled : Bool
  /-- The clock. -/
  clock : Clock

/-- Why a run fails. -/
inductive RunError
  /-- The conversion has errors, which have been reported. -/
  | conversionFailed
  /-- The source cannot be read. -/
  | reading (path : String) (e : FileError)
  /-- The generated code cannot be written. -/
  | writing (path : String) (e : FileError)
  /-- The settings cannot be loaded. -/
  | settings (e : SettingsError)
  /-- The catalog has no such exercise. -/
  | catalog (e : CatalogError)
  /-- The id of an exercise is missing. -/
  | missingExercise
  /-- The history cannot be opened. -/
  | history (e : HistoryError)
  /-- The service cannot listen on an address. -/
  | listening (addr : String) (fault : ListenAddress.Fault)
  /-- The arguments cannot be read. -/
  | flags (e : FlagError)
  deriving DecidableEq, Repr

/-- The wording of the reason. -/
def RunError.message : RunError → String
  | conversionFailed => "conversion failed"
  | reading path .isDirectory => "reading " ++ path ++ ": read " ++ path ++ ": is a directory"
  | reading path e => "reading " ++ path ++ ": open " ++ path ++ ": " ++ e.reason
  | writing path e => "writing " ++ path ++ ": open " ++ path ++ ": " ++ e.reason
  | settings e => e.message
  | catalog e => String.ofList (Text.lossy e.message)
  | missingExercise => "usage: pseint2js exercises show <id>"
  | history e => e.message
  | listening addr fault =>
    "listen " ++ addr ++ ": listen tcp: " ++ fault.message addr
  | flags e => e.message

/-- What a run does. -/
structure Outcome where
  /-- The text on standard output. -/
  stdout : String
  /-- The text on standard error. -/
  stderr : String
  /-- The texts that it writes, with the paths of their files. -/
  written : List (String × String)
  /-- Why it fails, if it does. -/
  error : Option RunError
  deriving DecidableEq, Repr

namespace Outcome

/-- A run that fails before it does anything. -/
def failed (e : RunError) : Outcome := ⟨"", "", [], some e⟩

/-- A run that prints a text. -/
def printed (text : String) : Outcome := ⟨text, "", [], none⟩

/-- The outcome of a computation that may fail before the run does anything. -/
def ofExcept : Except RunError Outcome → Outcome
  | .ok o => o
  | .error e => failed e

end Outcome

/-! ### Converting -/

/-- The path stands for standard input: it is missing or a lone dash. -/
def isStandardInput (path : String) : Bool := path.isEmpty || path = "-"

/-- The source at a path, and the name under which it is reported. -/
def source (s : Surroundings) (path : String) : Except RunError (String × String) :=
  if isStandardInput path then .ok (s.stdin, "<stdin>")
  else match s.files.read path with
    | .ok content => .ok (content, path)
    | .error e => .error (.reading path e)

/-- The settings of a run. -/
def settings (s : Surroundings) : Except RunError Settings :=
  (Settings.load .standard s.env s.files []).mapError .settings

/-- The conversion that a run asks for, and the name of its source. -/
def conversion (s : Surroundings) (p : Parsed) : Except RunError (Conversion × String) := do
  let (src, name) ← source s p.first
  let settings ← settings s
  return (Pseudocode.convert (p.isOn "strict" || settings.strict) src, name)

/-- The failure of a conversion with errors. -/
def verdict (c : Conversion) : Option RunError := if c.success then none else some .conversionFailed

/-- Puts out the generated code, if there is any: to a file if one is named. -/
def emit (files : Files) (c : Conversion) (path diagnostics : String) : Outcome :=
  if c.text.isEmpty then ⟨"", diagnostics, [], verdict c⟩
  else if path.isEmpty then ⟨c.text, diagnostics, [], verdict c⟩
  else match files.writeError? path with
    | some e => ⟨"", diagnostics, [], some (.writing path e)⟩
    | none => ⟨"", diagnostics, [(path, c.text)], verdict c⟩

/-- Converts a source. -/
def convert (s : Surroundings) (p : Parsed) : Outcome :=
  .ofExcept do
    let (c, name) ← conversion s p
    if p.isOn "json" then
      return ⟨String.ofList (c.toJson.indented ++ ['\n']), "", [], verdict c⟩
    else return emit s.files c (p.value "output") ((Reporter.mk name false).report c)

/-- Reports on a source without putting out the generated code. -/
def check (s : Surroundings) (p : Parsed) : Outcome :=
  .ofExcept do
    let (c, name) ← conversion s p
    let reporter : Reporter := ⟨name, false⟩
    return ⟨reporter.report c ++ reporter.summary c, "", [], verdict c⟩

/-! ### Exercises -/

/-- A text filled up with blanks to a width. -/
def column (width : Nat) (s : String) : String :=
  s ++ String.ofList (List.replicate (width - s.length) ' ')

/-- The line that lists an exercise. -/
def exerciseLine (e : Exercise) : String :=
  column 22 e.id ++ " " ++ column 14 e.category ++ " " ++ column 8 e.difficulty ++ " " ++ e.title ++
    "\n"

/-- The line that separates the parts of an exercise, which gets shorter by the bytes of the
title. -/
def ruler (title : String) : String :=
  "--- " ++ title ++ " " ++ String.ofList (List.replicate (40 - Text.byteLength title.toList) '-')

/-- The text without the line feeds it ends with. -/
def withoutLineEnds (s : String) : String :=
  String.ofList ((s.toList.reverse.dropWhile (· == '\n')).reverse)

/-- The steps of an exercise, numbered from 1. -/
def numbered (steps : List String) : String :=
  String.join (steps.zipIdx.map fun (step, i) => "  " ++ toString (i + 1) ++ ". " ++ step ++ "\n")

/-- An exercise with its solution and the code generated from that. -/
def exerciseText (e : Exercise) : String :=
  e.title ++ " (" ++ e.category ++ ", " ++ e.difficulty ++ ")\n\n" ++ e.description ++ "\n" ++
    "\n" ++ ruler "Instrucciones" ++ "\n" ++ numbered e.instructions ++
    "\n" ++ ruler "Pistas" ++ "\n" ++ String.join (e.hints.map fun h => "  - " ++ h ++ "\n") ++
    "\n" ++ ruler "Salida esperada" ++ "\n" ++ e.expectedOutput ++ "\n" ++
    "\n" ++ ruler "PSeInt" ++ "\n" ++ withoutLineEnds e.solution ++ "\n" ++
    "\n" ++ ruler "JavaScript" ++ "\n" ++ (Pseudocode.convert false e.solution).text

/-- Lists the exercises of a category. -/
def exercises (p : Parsed) : Outcome :=
  .printed (String.join ((Catalog.builtin.byCategory (p.value "category").toList).map exerciseLine))

/-- Shows an exercise. -/
def showExercise (p : Parsed) : Outcome :=
  match p.args with
  | [] => .failed .missingExercise
  | id :: _ =>
    match Catalog.builtin.get (Text.glyphs id.toList) with
    | .ok e => .printed (exerciseText e)
    | .error e => .failed (.catalog e)

/-! ### Serving -/

/-- Starts the service.  It is stopped at once if the run is cancelled; an address on which it
cannot listen fails. -/
def serve (s : Surroundings) (p : Parsed) : Outcome :=
  .ofExcept do
    let settings ← settings s
    let settings := settings.merge ⟨p.value "addr", p.value "history", p.isOn "strict", 0⟩
    if !settings.historyPath.isEmpty then
      let db := Embedded.database (Embedded.obstacle? s.files)
      if let .error (e, _) := Store.openAt db .fresh settings.historyPath s.clock then
        throw (.history e)
    if !s.cancelled then
      if let some fault := ListenAddress.error? settings.addr then
        throw (.listening settings.addr fault)
    return .printed ""

/-! ### Commands -/

/-- What a command line asks for. -/
inductive Invocation
  | help
  | version
  | convert (p : Parsed)
  | check (p : Parsed)
  | exercises (p : Parsed)
  | showExercise (p : Parsed)
  | serve (p : Parsed)
  deriving DecidableEq, Repr

namespace Invocation

/-- The switch that takes faults of nesting for errors. -/
def strict : Flag := ⟨"strict", [], true⟩

/-- The switch that asks for help, which every command has. -/
def helpFlag : Flag := ⟨"help", ["h"], true⟩

/-- The flags of the program itself, which its subcommands take as well. -/
def rootFlags : List Flag := [⟨"no-color", ["C"], true⟩, ⟨"version", ["v"], true⟩]

/-- The flags for listing exercises, which showing one takes as well. -/
def exercisesFlags : List Flag := ⟨"category", [], false⟩ :: rootFlags

/-- A command with the given flags and subcommands; each has one for help. -/
def grammar (flags : List Flag) (commands : List String) : Grammar :=
  ⟨helpFlag :: flags, commands ++ ["help", "h"]⟩

/-- The program itself. -/
def root : Grammar := grammar rootFlags ["convert", "check", "exercises", "serve"]

/-- Converting. -/
def converting : Grammar :=
  grammar ([strict, ⟨"json", [], true⟩, ⟨"output", ["o"], false⟩] ++ rootFlags) []

/-- Reporting. -/
def checking : Grammar := grammar (strict :: rootFlags) []

/-- Listing exercises. -/
def listing : Grammar := grammar exercisesFlags ["show"]

/-- Showing an exercise. -/
def showing : Grammar := grammar exercisesFlags []

/-- Serving. -/
def serving : Grammar :=
  grammar ([⟨"addr", [], false⟩, ⟨"history", [], false⟩, strict] ++ rootFlags) []

/-- What a command asks for, unless it asks for help by a flag or a subcommand. -/
def unlessHelp (p : Parsed) (invocation : Invocation) : Invocation :=
  if p.isOn "help" || p.args.head?.any (· ∈ ["help", "h"]) then .help else invocation

/-- What the arguments of a command without subcommands ask for. -/
def ofLeaf (g : Grammar) (outer : List Flag) (args : List String) (form : Parsed → Invocation) :
    Except FlagError Invocation :=
  (g.parse outer args).map fun p => unlessHelp p (form p)

/-- What the arguments of the subcommand for exercises ask for. -/
def ofExercises (outer : List Flag) (args : List String) : Except FlagError Invocation := do
  let p ← listing.parse outer args
  match unlessHelp p (.exercises p), p.args with
  | .exercises p, "show" :: rest => ofLeaf showing (p.given ++ outer) rest .showExercise
  | invocation, _ => return invocation

/-- What a subcommand with its arguments asks for; none if there is no such subcommand. -/
def ofCommand? (outer : List Flag) (name : String) (args : List String) :
    Option (Except FlagError Invocation) :=
  match name with
  | "convert" => some (ofLeaf converting outer args .convert)
  | "check" => some (ofLeaf checking outer args .check)
  | "exercises" => some (ofExercises outer args)
  | "serve" => some (ofLeaf serving outer args .serve)
  | _ => none

/-- What arguments ask for.  Arguments without a subcommand name a source to convert. -/
def ofArgs (args : List String) : Except FlagError Invocation := do
  let p ← root.parse [] args
  if p.isOn "help" then return .help
  else if p.isOn "version" then return .version
  else match p.args with
    | [] => return .help
    | name :: rest =>
      (ofCommand? p.given name rest).getD (.ok (unlessHelp p (.convert p)))

/-- The command line reads standard input. -/
def readsInput : Invocation → Bool
  | convert p | check p => isStandardInput p.first
  | _ => false

/-- Does what a command line asks for. -/
def run (s : Surroundings) : Invocation → Outcome
  | help => .printed ""
  | version => .printed ("pseint2js version " ++ s.version ++ "\n")
  | convert p => Command.convert s p
  | check p => Command.check s p
  | exercises p => Command.exercises p
  | showExercise p => Command.showExercise p
  | serve p => Command.serve s p

end Invocation

/-- Runs a command line. -/
def run (s : Surroundings) (args : List String) : Outcome :=
  match Invocation.ofArgs args with
  | .ok invocation => invocation.run s
  | .error e => .failed (.flags e)

end Command

end Pseudocode
