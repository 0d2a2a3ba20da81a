import Pseudocode.Layout
import Pseudocode.Names
import Pseudocode.Scan.TopLevel
import Pseudocode.Statement.Target

/-!
# Input

`Leer a, v[i]` becomes one prompt for each target.  A plain name is declared at its first use; an
element of an array never declares the array.
-/

namespace Pseudocode

namespace Statement

/-- The targets that an input statement lists. -/
def inputTargets (line : List Char) : List (List Char) :=
  (Scan.splitTopLevel ',' (Text.stripKey "leer".toList line)).filter (!·.isEmpty)

/-- The statement that reads a number into a target. -/
def readTarget (target : List Char) (names : Names) : List Char × Names :=
  match Element.ofText? target with
  | some element =>
    (element.array ++ "[".toList ++ element.index ++
      "] = parseFloat(prompt(\"Ingresa valor:\"));".toList, names)
  | none =>
    let (letWord, names) := names.introduce target
    (letWord ++ target ++ " = parseFloat(prompt(\"Ingresa ".toList ++ target ++ ":\"));".toList,
      names)

/-- The statements that read targets one after the other. -/
def readTargets : List (List Char) → Names → List (List Char) × Names
  | [], names => ([], names)
  | target :: targets, names =>
    let (statement, names) := readTarget target names
    let (statements, names) := readTargets targets names
    (statement :: statements, names)

/-- Converts an input statement to lines at a depth. -/
def input (line : List Char) (depth : Nat) (names : Names) : List Piece × Names :=
  let (statements, names) := readTargets (inputTargets line) names
  (statements.map (.line depth), names)

end Statement

end Pseudocode
