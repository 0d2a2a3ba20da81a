import Pseudocode.Expr.Convert

/-!
# Guarded blocks

The lines that open or close a block under a condition: `Si`, `Mientras` and `Hasta Que`.
-/

namespace Pseudocode

namespace Header

/-- Opens a conditional: `Si c Entonces`. -/
def branch (line : List Char) : List Char :=
  let guard := Text.stripLastKey "entonces".toList (Text.stripWholeKey "si".toList line)
  "if (".toList ++ Expr.condition guard ++ ") \x7b".toList

/-- Opens a loop: `Mientras c Hacer`. -/
def whileLoop (line : List Char) : List Char :=
  let guard := Text.stripLastKey "hacer".toList (Text.stripWholeKey "mientras".toList line)
  "while (".toList ++ Expr.condition guard ++ ") \x7b".toList

/-- Reads `Hasta Que` off the front of a text: what follows. -/
def afterUntil? (s : List Char) : Option (List Char) := do
  let (_, s) ← Text.splitKey? "hasta".toList s
  let s ← Text.skipSomeBlanks? s
  let (_, s) ← Text.splitWholeKey? "que".toList s
  return s

/-- Closes a loop that runs until the condition holds: `Hasta Que c`. -/
def untilLoop (line : List Char) : List Char :=
  let guard := Text.trim ((afterUntil? line).getD line)
  "\x7d while (!(".toList ++ Expr.condition guard ++ "));".toList

end Header

end Pseudocode
