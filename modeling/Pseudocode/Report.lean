import Pseudocode.Convert

/-!
# Reports

Diagnostics as they are printed for a source of a given name, with or without colors.

* `Reporter.report` : a line for each diagnostic.
* `Reporter.summary` : a line for the whole conversion.
-/

namespace Pseudocode

/-- The colors of a report. -/
inductive Color
  | red
  | yellow
  | green
  | dim

/-- The escape sequence that starts a color. -/
def Color.start : Color → String
  | red => "\x1b[31m"
  | yellow => "\x1b[33m"
  | green => "\x1b[32m"
  | dim => "\x1b[2m"

/-- How a report is printed. -/
structure Reporter where
  /-- The name of the source. -/
  name : String
  /-- Colors are used. -/
  color : Bool

namespace Reporter

/-- A text in a color. -/
def paint (r : Reporter) (c : Color) (text : String) : String :=
  if r.color then c.start ++ text ++ "\x1b[0m" else text

/-- The place of a diagnostic. -/
def location (r : Reporter) (d : Diagnostic) : String :=
  if 0 < d.line then r.name ++ ":" ++ toString d.line else r.name

/-- The lines for a diagnostic. -/
def diagnostic (r : Reporter) (d : Diagnostic) : String :=
  r.location d ++ ": " ++ r.paint (if d.isError then .red else .yellow) d.category.label ++ ": " ++
    d.message ++ "\n" ++
    (match d.suggestion with
      | some s => "  " ++ r.paint .dim ("sugerencia: " ++ s) ++ "\n"
      | none => "")

/-- The lines for all diagnostics. -/
def report (r : Reporter) (c : Conversion) : String := String.join (c.details.map r.diagnostic)

/-- The line for the whole conversion. -/
def summary (r : Reporter) (c : Conversion) : String :=
  r.name ++ ": " ++ (if c.success then r.paint .green "ok" else r.paint .red "error") ++ ", " ++
    toString c.errors.length ++ " errores, " ++ toString c.warnings.length ++ " advertencias\n"

end Reporter

end Pseudocode
