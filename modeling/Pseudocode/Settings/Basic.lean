import Pseudocode.Files
import Pseudocode.Settings.EnvFile
import Pseudocode.Text.Decimal
import Pseudocode.Text.Quoted

/-!
# Settings

Settings come from environment variables and from environment files.  A variable that is present
in the environment, even if it is empty, is not replaced by a file, and an earlier file wins over a
later one.

* `Environment.Loader` : how environment files are read; `Environment.Loader.standard` is the one
  that is used.
* `Settings.merge` : settings with others put over them.
* `Settings.load` : the settings of an environment and files.
-/

namespace Pseudocode

/-- What the command line and the service share. -/
structure Settings where
  /-- The address on which the service listens. -/
  addr : String
  /-- The file that keeps the history; none is kept if it is empty. -/
  historyPath : String
  /-- Faults of nesting are errors. -/
  strict : Bool
  /-- The greatest size of a request. -/
  maxBytes : Int
  deriving DecidableEq, Repr

/-- Environment variables and their values. -/
abbrev Environment := List (String × String)

/-- Why settings cannot be loaded. -/
inductive SettingsError
  /-- An environment file cannot be read, or has another form. -/
  | badFile (name reason : String)
  /-- The variable that says how strict to be is no truth value. -/
  | badStrict (value : String)
  /-- The variable that limits requests is no integer. -/
  | badMaxBytes (value : String) (reason : Text.IntegerError)
  deriving DecidableEq, Repr

/-- The wording of the reason. -/
def SettingsError.message : SettingsError → String
  | badFile name reason => "load " ++ name ++ ": " ++ reason
  | badStrict value =>
    "parse PSEINT_STRICT: strconv.ParseBool: parsing " ++
      String.ofList (Text.quote value.toList) ++ ": invalid syntax"
  | badMaxBytes value reason =>
    "parse PSEINT_MAX_BYTES: strconv.ParseInt: parsing " ++
      String.ofList (Text.quote value.toList) ++ ": " ++ reason.reason

namespace Environment

/-- The trimmed value of a variable, empty if it is not set. -/
def value (env : Environment) (name : String) : String :=
  String.ofList (Text.trim ((env.lookup name).getD "").toList)

/-- Sets a variable unless it is set already.  A name that is empty or holds a null character or
`=` cannot be set, nor can a value that holds a null character. -/
def setDefault (env : Environment) (name value : String) : Environment :=
  let nul := Char.ofNat 0
  if name.isEmpty || nul ∈ name.toList || '=' ∈ name.toList || nul ∈ value.toList then env
  else if (env.lookup name).isSome then env
  else env ++ [(name, value)]

/-- Adds the definitions of a file.  Of those of one key the last counts, which stands first, also
if its value cannot be set. -/
def addDefinitions (env : Environment) (defs : EnvFile.Definitions) : Environment :=
  defs.foldl (fun env (key, _) =>
    env.setDefault (String.ofList key) (String.ofList ((defs.lookup key).getD []))) env

/-- How environment files are read. -/
structure Loader where
  /-- The definitions in a text, or why it is no environment file. -/
  parse : List Char → Except String EnvFile.Definitions
  /-- Adds the definitions of a file to an environment. -/
  add : Environment → EnvFile.Definitions → Environment

/-- Reads assignments line by line, and sets the variables that are not set already. -/
def Loader.standard : Loader where
  parse s :=
    match EnvFile.parse s with
    | some defs => .ok defs
    | none => .error "malformed assignment"
  add := addDefinitions

/-- Adds the definitions in files, one file after the other; files that are missing are passed
over. -/
def addFiles (loader : Loader) (files : Files) :
    List String → Environment → Except SettingsError Environment
  | [], env => .ok env
  | name :: names, env =>
    match files.read name with
    | .error .notFound => addFiles loader files names env
    | .error e => .error (.badFile name ("open " ++ name ++ ": " ++ e.reason))
    | .ok content =>
      match loader.parse content.toList with
      | .error reason => .error (.badFile name reason)
      | .ok defs => addFiles loader files names (loader.add env defs)

end Environment

namespace Settings

/-- The address on which the service listens if none is given. -/
def defaultAddr : String := ":8080"

/-- The greatest size of a request if none is given. -/
def defaultMaxBytes : Int := 1048576

/-- The text, trimmed, or another one if nothing is left of it. -/
def orElse (text other : String) : String :=
  let trimmed := String.ofList (Text.trim text.toList)
  if trimmed.isEmpty then other else trimmed

/-- The settings with those fields of `top` put over them that are given. -/
def merge (s top : Settings) : Settings where
  addr := orElse top.addr s.addr
  historyPath := orElse top.historyPath s.historyPath
  strict := s.strict || top.strict
  maxBytes := if 0 < top.maxBytes then top.maxBytes else s.maxBytes

/-- The truth value that a word stands for. -/
def truth? : String → Option Bool
  | "1" | "t" | "T" | "TRUE" | "true" | "True" => some true
  | "0" | "f" | "F" | "FALSE" | "false" | "False" => some false
  | _ => none

/-- Reads how strict to be; an empty value is not strict. -/
def readStrict (value : String) : Except SettingsError Bool :=
  if value.isEmpty then .ok false
  else match truth? value with
    | some b => .ok b
    | none => .error (.badStrict value)

/-- Reads the greatest size of a request; an empty value and one that is not positive stand for the
default. -/
def readMaxBytes (value : String) : Except SettingsError Int :=
  if value.isEmpty then .ok defaultMaxBytes
  else match Text.integer value.toList with
    | .ok n => .ok (if 0 < n then n else defaultMaxBytes)
    | .error reason => .error (.badMaxBytes value reason)

/-- The settings that an environment gives. -/
def ofEnvironment (env : Environment) : Except SettingsError Settings := do
  let strict ← readStrict (env.value "PSEINT_STRICT")
  let maxBytes ← readMaxBytes (env.value "PSEINT_MAX_BYTES")
  return ⟨orElse (env.value "PSEINT_ADDR") defaultAddr, env.value "PSEINT_HISTORY", strict,
    maxBytes⟩

/-- The file that is read if none is named. -/
def defaultFiles : List String := [".env"]

/-- The settings of an environment and of the files named. -/
def load (loader : Environment.Loader) (env : Environment) (files : Files) (names : List String) :
    Except SettingsError Settings := do
  let env ← env.addFiles loader files (if names.isEmpty then defaultFiles else names)
  ofEnvironment env

end Settings

end Pseudocode
