import Pseudocode.Text.LowerCase
import Pseudocode.Text.Quoted
import Pseudocode.Text.Space

/-!
# The log

A log line is a list of `key=value` pairs.  Lines below the level of the log are dropped.

* `Level.ofName` : the level of a name.
* `Log.line` : a line of the log.
-/

namespace Pseudocode

namespace Log

/-- How much a line matters. -/
inductive Level
  | debug
  | info
  | warn
  | error
  deriving DecidableEq, Repr

namespace Level

/-- The weight of a level. -/
def weight : Level → Int
  | debug => -4
  | info => 0
  | warn => 4
  | error => 8

/-- The name under which lines of the level are written. -/
def label : Level → String
  | debug => "DEBUG"
  | info => "INFO"
  | warn => "WARN"
  | error => "ERROR"

/-- The level of a name, letter case and spaces aside; any other name is that of `info`. -/
def ofName (name : String) : Level :=
  match String.ofList (Text.lower (Text.trim name.toList)) with
  | "debug" => debug
  | "warn" | "warning" => warn
  | "error" => error
  | _ => info

end Level

/-- The character does not stand in a value without quotes. -/
def needsQuotes (c : Char) : Bool :=
  if c.toNat < 128 then c.toNat ≤ 32 || c == '=' || c == '"'
  else Text.isSpace c || !Text.isPrintable c || c == '�'

/-- A key or a value, quoted where that is needed. -/
def word (s : List Char) : List Char :=
  if s.isEmpty || s.any needsQuotes then Text.quote s else s

/-- A line with a message and perhaps a number under a key. -/
def line (level : Level) (message : String) (detail : Option (String × Int)) : List Char :=
  "level=".toList ++ level.label.toList ++ " msg=".toList ++ word message.toList ++
    (match detail with
      | some (key, n) => ' ' :: word key.toList ++ '=' :: (toString n).toList
      | none => []) ++ ['\n']

/-- What a log of the given level holds of a line. -/
def entry (log level : Level) (message : String) (detail : Option (String × Int)) :
    List Char :=
  if log.weight ≤ level.weight then line level message detail else []

end Log

end Pseudocode
