/-!
# Layout of generated code

Generated code is a list of pieces, each of them a line at a nesting depth.

* `indent` : the blanks in front of a line.
* `Piece.text`, `render` : the text of pieces.
-/

namespace Pseudocode

/-- The indentation at a depth, two blanks a level; a negative depth counts as zero. -/
def indent (depth : Int) : List Char := List.replicate (2 * depth.toNat) ' '

/-- A piece of generated code: a line at a nesting depth. -/
structure Piece where
  line ::
  /-- The nesting depth. -/
  depth : Nat
  /-- The line without its indentation. -/
  code : List Char
  deriving DecidableEq, Repr

namespace Piece

/-- An empty line. -/
def blank : Piece := line 0 []

/-- The text of a piece, which ends with a line feed. -/
def text : Piece → List Char
  | line depth code => indent depth ++ code ++ ['\n']

end Piece

/-- The text of pieces one after the other. -/
def render (pieces : List Piece) : List Char := pieces.flatMap Piece.text

end Pseudocode
