import Pseudocode.Text.Letter
import Pseudocode.Text.Space
import Pseudocode.Text.Utf8

/-!
# Flags of the command line

A flag is written with one or two dashes; its value follows after an equals sign or, unless the
flag is a switch, as the next argument.  Flags may stand among the other arguments, as far as the
name of a subcommand, a lone dash, two dashes or an empty argument.

* `parseFlags` : the flags and the other arguments.
* `Grammar.parse` : what a command makes of its arguments.
-/

namespace Pseudocode

namespace Command

/-- A flag that a command takes. -/
structure Flag where
  /-- The name by which it is looked up. -/
  name : String
  /-- Other names for it. -/
  aliases : List String
  /-- It is on or off and needs no value. -/
  isSwitch : Bool
  deriving DecidableEq, Repr

/-- Why arguments cannot be read. -/
inductive FlagError
  | unknownFlag (name : String)
  | missingValue (name : String)
  | invalidValue (name value : String)
  deriving DecidableEq, Repr

/-- The wording of the reason. -/
def FlagError.message : FlagError → String
  | unknownFlag name => "flag provided but not defined: -" ++ name
  | missingValue name => "flag needs an argument: " ++ name
  | invalidValue name value =>
    "invalid value \"" ++ value ++ "\" for flag -" ++ name ++ ": parse error"

namespace Flag

/-- All names of the flag. -/
def names (f : Flag) : List String := f.name :: f.aliases

/-- The values that turn a switch on. -/
def onValues : List String := ["1", "t", "T", "TRUE", "true", "True"]

/-- The values that turn a switch off. -/
def offValues : List String := ["0", "f", "F", "FALSE", "false", "False"]

/-- The flag takes the value. -/
def accepts (f : Flag) (value : String) : Bool :=
  !f.isSwitch || value ∈ onValues || value ∈ offValues

end Flag

/-- The arguments of a command. -/
structure Parsed where
  /-- The flags with their values, a later one in front of an earlier one. -/
  flags : List (Flag × String)
  /-- The other arguments. -/
  args : List String
  deriving DecidableEq, Repr

namespace Parsed

/-- The flags that are given. -/
def given (p : Parsed) : List Flag := p.flags.map (·.1)

/-- The value of a flag, empty if it is not given. -/
def value (p : Parsed) (name : String) : String :=
  ((p.flags.find? (·.1.name = name)).map (·.2)).getD ""

/-- The switch is on. -/
def isOn (p : Parsed) (name : String) : Bool := p.value name ∈ Flag.onValues

/-- The first argument, empty if there is none. -/
def first (p : Parsed) : String := p.args.headD ""

/-- Adds flags that are given before the others. -/
def withFlags (p : Parsed) (flags : List (Flag × String)) : Parsed :=
  { p with flags := p.flags ++ flags.reverse }

/-- Puts an argument in front of the others. -/
def withArg (p : Parsed) (arg : String) : Parsed := { p with args := arg :: p.args }

end Parsed

/-- The flag of the given name. -/
def findFlag? (flags : List Flag) (name : List Char) : Option Flag :=
  flags.find? fun f => String.ofList name ∈ f.names

/-- The character starts the name of a flag after a single dash.  Only its first byte counts, as
that of a character of its own. -/
def isFlagStart (c : Char) : Bool :=
  match Text.encode [c] with
  | b :: _ => Text.isLetter (Char.ofNat b.toNat)
  | [] => false

/-- A flag as it is written: the name without its dashes, and the value after an equals sign. -/
def splitFlag (s : List Char) : List Char × Option (List Char) :=
  let name := s.takeWhile (· != '=')
  match s.dropWhile (· != '=') with
  | [] => (name, none)
  | _ :: value => (name, some value)

/-- What an argument is. -/
inductive Argument
  /-- Neither a flag nor an argument; nothing after it counts. -/
  | blank
  /-- An argument after which nothing counts. -/
  | last (text : String)
  /-- No flag, nor is any of the arguments from here on. -/
  | stop
  /-- The mark after which no argument is a flag. -/
  | mark
  /-- No flag. -/
  | word (text : String)
  /-- Flags with their values. -/
  | given (flags : List (Flag × String))
  /-- A flag whose value is the next argument. -/
  | awaiting (flag : Flag)
  /-- Switches, and a flag whose value is the next argument, which counts as an argument too. -/
  | sharing (flags : List (Flag × String)) (flag : Flag)
  /-- Not a flag that the command takes. -/
  | unknown (name : String)
  deriving DecidableEq, Repr

namespace Argument

/-- The value of a switch; an empty one turns it on. -/
def switchValue : Option (List Char) → String
  | none | some [] => "true"
  | some value => String.ofList value

/-- A flag of the given value, if one is given. -/
def ofFlag (flag : Flag) (value : Option (List Char)) : Argument :=
  if flag.isSwitch then .given [(flag, switchValue value)]
  else match value with
    | some value => .given [(flag, String.ofList value)]
    | none => .awaiting flag

/-- The last flag of a group. -/
def ofLastInGroup (flag : Flag) (value : Option (List Char)) : Argument :=
  if flag.isSwitch then .given [(flag, switchValue value)]
  else match value with
    | none | some [] => .sharing [] flag
    | some value => .given [(flag, String.ofList value)]

/-- Puts flags in front of those of an argument. -/
def after (flags : List (Flag × String)) : Argument → Argument
  | given more => .given (flags ++ more)
  | sharing more flag => .sharing (flags ++ more) flag
  | other => other

/-- A group of flags of one letter each.  The last of them may take a value; one before it that
needs a value is passed over. -/
def ofGroup (known : List Flag) (name : String) (value : Option (List Char)) :
    List Char → Argument
  | [] => .given []
  | c :: cs =>
    match findFlag? known [c] with
    | none => .unknown name
    | some flag =>
      if cs.isEmpty then ofLastInGroup flag value
      else after (if flag.isSwitch then [(flag, switchValue value)] else [])
        (ofGroup known name value cs)

/-- What an argument is to a command that takes the given flags and has subcommands of the given
names. -/
def ofText (known : List Flag) (commands : List String) (text : List Char) : Argument :=
  match text with
  | [] => .blank
  | ['-'] => .last "-"
  | ['-', '-'] => .mark
  | '-' :: '-' :: cs =>
    let (name, value) := splitFlag cs
    match findFlag? known name with
    | some flag => ofFlag flag value
    | none => .unknown (String.ofList name)
  | '-' :: c :: cs =>
    let (name, value) := splitFlag (c :: cs)
    if !isFlagStart c then .stop
    else match findFlag? known name with
      | some flag => ofFlag flag value
      | none => ofGroup known (String.ofList name) value name
  | _ => if String.ofList text ∈ commands then .stop else .word (String.ofList text)

end Argument

/-- Adds flags in front of what the arguments after them are read as, unless one of them does not
take its value. -/
def addFlags (flags : List (Flag × String)) (rest : Except FlagError Parsed) :
    Except FlagError Parsed :=
  match flags.find? fun (flag, value) => !flag.accepts value with
  | some (flag, value) => .error (.invalidValue flag.name value)
  | none => rest.map (·.withFlags flags)

/-- Reads the arguments of a command that takes the given flags and has subcommands of the given
names. -/
def parseFlags (known : List Flag) (commands : List String) :
    List String → Except FlagError Parsed
  | [] => .ok ⟨[], []⟩
  | arg :: rest =>
    match Argument.ofText known commands (Text.trim arg.toList) with
    | .blank => .ok ⟨[], []⟩
    | .last text => .ok ⟨[], [text]⟩
    | .stop => .ok ⟨[], arg :: rest⟩
    | .mark => .ok ⟨[], rest⟩
    | .word text => (parseFlags known commands rest).map (·.withArg text)
    | .given flags => addFlags flags (parseFlags known commands rest)
    | .awaiting flag =>
      match rest with
      | [] => .error (.missingValue arg)
      | value :: rest => addFlags [(flag, value)] (parseFlags known commands rest)
    | .sharing flags flag =>
      match rest with
      | [] => addFlags flags (.error (.missingValue arg))
      | value :: _ => addFlags (flags ++ [(flag, value)]) (parseFlags known commands rest)
    | .unknown name => .error (.unknownFlag name)

/-- The flags and the subcommands of a command. -/
structure Grammar where
  /-- The flags that it takes. -/
  flags : List Flag
  /-- The names of its subcommands. -/
  commands : List String
  deriving DecidableEq, Repr

namespace Grammar

/-- Reads the arguments of a command, around which the flags `outer` have been given.  If the first
argument is no subcommand and the name of a flag that has been given, an empty argument is put in
front of it. -/
def parse (g : Grammar) (outer : List Flag) (args : List String) : Except FlagError Parsed :=
  (parseFlags g.flags g.commands args).map fun p =>
    match p.args with
    | [] => p
    | name :: _ =>
      if name ∉ g.commands && (p.given ++ outer).any (name ∈ ·.names) then p.withArg "" else p

end Grammar

end Command

end Pseudocode
