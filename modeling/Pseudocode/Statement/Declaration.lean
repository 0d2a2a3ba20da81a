import Pseudocode.Names
import Pseudocode.Scan.TopLevel
import Pseudocode.Text.Word

/-!
# Declarations

`Definir a, b Como Entero` becomes a `let` for the names that are new.  The type is dropped.
-/

namespace Pseudocode

namespace Statement

/-- Blanks, the word `Como` in any letter case, and a blank stand at the front of the text. -/
def startsWithType (s : List Char) : Bool :=
  match Text.skipSomeBlanks? s with
  | some rest =>
    match Text.splitKey? "como".toList rest with
    | some (_, after) => after.head?.any Text.isBlank
    | none => false
  | none => false

/-- The part of a declaration before its type. -/
def beforeType : List Char → List Char
  | [] => []
  | c :: cs => if startsWithType (c :: cs) then [] else c :: beforeType cs

/-- The names that a declaration lists. -/
def declaredNames (line : List Char) : List (List Char) :=
  (Scan.splitTopLevel ',' (Text.stripKey "definir".toList (beforeType line))).filter (!·.isEmpty)

/-- Converts a declaration; the text is empty if no listed name is new. -/
def declaration (line : List Char) (names : Names) : List Char × Names :=
  let (fresh, names) := names.declareAll (declaredNames line)
  (if fresh.isEmpty then [] else "let ".toList ++ Text.join ", ".toList fresh ++ ";".toList, names)

end Statement

end Pseudocode
