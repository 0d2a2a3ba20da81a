import Pseudocode.Header.Guard
import Pseudocode.SourceLine
import Pseudocode.Statement.Simple
import Pseudocode.Statement.Target

/-!
# Kinds of lines

A line is of the first kind in a fixed order whose form it has.

* `LineKind.fits` : a line has the form of a kind.
* `SourceLine.kind?` : the kind of a line, none if it has no known form.
-/

namespace Pseudocode

/-- The kinds of lines in the body of a routine. -/
inductive LineKind
  | declaration
  | dimension
  | input
  | output
  | branch
  | otherwise
  | endBranch
  | whileLoop
  | endWhile
  | countedLoop
  | endCounted
  | repeatLoop
  | untilLoop
  | assignment
  | call
  deriving DecidableEq, Repr

namespace LineKind

/-- The line has the form of the kind. -/
def fits (l : SourceLine) : LineKind → Bool
  | declaration => l.hasKeyword "definir"
  | dimension => l.hasKeyword "dimension"
  | input => l.hasKeyword "leer"
  | output => l.hasKeyword "escribir" || l.hasKeyword "imprimir" || l.hasKeyword "mostrar"
  | branch => l.hasKeyword "si"
  | otherwise => l.lower == "sino".toList
  | endBranch => l.isCloser "finsi"
  | whileLoop => l.hasKeyword "mientras"
  | endWhile => l.isCloser "finmientras"
  | countedLoop => l.hasKeyword "para"
  | endCounted => l.isCloser "finpara"
  | repeatLoop => l.lower == "repetir".toList
  | untilLoop => (Header.afterUntil? l.lower).isSome
  | assignment => (Scan.breakCode? Statement.arrow l.code).isSome
  | call => Statement.isCall l.code

/-- The kinds in the order in which they are tried. -/
def order : List LineKind :=
  [declaration, dimension, input, output, branch, otherwise, endBranch, whileLoop, endWhile,
   countedLoop, endCounted, repeatLoop, untilLoop, assignment, call]

end LineKind

/-- The kind of a line, none if it has no known form. -/
def SourceLine.kind? (l : SourceLine) : Option LineKind := LineKind.order.find? (LineKind.fits l)

end Pseudocode
