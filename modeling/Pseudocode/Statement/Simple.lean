import Pseudocode.Expr.Convert
import Pseudocode.Names
import Pseudocode.Scan.TopLevel
import Pseudocode.Text.Word

/-!
# Output, assignments and calls

* `output` : `Escribir a, b` becomes `console.log(a, b)`, with its arguments untouched.
* `assignment` : `x <- e`, where a target that is no element of an array is declared at its first
  use.
* `call` : a call that stands alone.
-/

namespace Pseudocode

namespace Statement

/-- Reads the words that keep the output on one line, if they are there: the text after them. -/
def afterSameLine? (s : List Char) : Option (List Char) := do
  let s ← Text.skipSomeBlanks? s
  let (_, s) ← Text.splitKey? "sin".toList s
  let s ← Text.skipSomeBlanks? s
  let (_, s) ← Text.splitWholeKey? "saltar".toList s <|> Text.splitWholeKey? "bajar".toList s
  return s

/-- The keywords of output. -/
def outputKeywords : List (List Char) :=
  ["escribir".toList, "imprimir".toList, "mostrar".toList]

/-- The arguments of an output statement. -/
def outputArguments (line : List Char) : List Char :=
  match Text.splitAnyKey? outputKeywords line with
  | some (_, rest) => Text.trim ((afterSameLine? rest).getD rest)
  | none => Text.trim line

/-- Converts an output statement. -/
def output (line : List Char) : List Char :=
  "console.log(".toList ++ outputArguments line ++ ");".toList

/-- The sign of assignment. -/
def arrow : List Char := "<-".toList

/-- The two sides of an assignment, trimmed. -/
def assignmentSides? (line : List Char) : Option (List Char × List Char) :=
  (Scan.breakCode? arrow line).map fun (left, rest) =>
    (Text.trim left, Text.trim (rest.drop arrow.length))

/-- Converts an assignment; a line without the sign is kept as a comment. -/
def assignment (line : List Char) (names : Names) : List Char × Names :=
  match assignmentSides? line with
  | none => ("// ".toList ++ line, names)
  | some (left, right) =>
    let (letWord, names) := if '[' ∈ left then ([], names) else names.introduce left
    (letWord ++ left ++ " = ".toList ++ Expr.booleans (Expr.expression right) ++ ";".toList, names)

/-- Converts a call that stands alone. -/
def call (line : List Char) : List Char := Expr.expression line ++ ";".toList

end Statement

end Pseudocode
