import Pseudocode.Expr.Convert
import Pseudocode.Names

/-!
# Counted loops

`Para i <- a Hasta b Con Paso s Hacer`.  The parts of the header are arbitrary texts on one line, so
it can be cut in several ways; the cut is fixed by preferring, from the left, as many blanks as
possible between the parts, then the shortest part, and a step to none.

* `CountedLoop.ofText?` : the parts of a header.
* `CountedLoop.code` : the loop that a header opens.
-/

namespace Pseudocode

namespace Header

section Choice

variable {β : Type}

/-- Passes over blanks, as many as possible, and goes on with the rest of the text; if that fails,
passes over fewer. -/
def overBlanks (next : List Char → Option β) : List Char → Option β
  | [] => next []
  | c :: cs => if Text.isBlank c then overBlanks next cs <|> next (c :: cs) else next (c :: cs)

/-- Passes over blanks, as many as possible and at least one. -/
def overSomeBlanks (next : List Char → Option β) : List Char → Option β
  | [] => none
  | c :: cs => if Text.isBlank c then overBlanks next cs else none

/-- Passes over a keyword. -/
def overKey (key : List Char) (next : List Char → Option β) (s : List Char) : Option β :=
  (Text.splitKey? key s).bind fun (_, rest) => next rest

/-- Takes a part of at least one character without line feeds, as short as possible, with which
the rest of the text can go on; `held` is what has been taken so far, last character first. -/
def shortestFrom (next : List Char → List Char → Option β) :
    (held : List Char) → List Char → Option β
  | _, [] => none
  | held, c :: cs =>
    if c = '\n' then none
    else next (c :: held).reverse cs <|> shortestFrom next (c :: held) cs

/-- Takes a part of at least one character without line feeds, as short as possible. -/
def shortest (next : List Char → List Char → Option β) (s : List Char) : Option β :=
  shortestFrom next [] s

end Choice

/-- The parts of the header of a counted loop, as they are written. -/
structure CountedLoop where
  /-- The counter. -/
  counter : List Char
  /-- Its first value. -/
  first : List Char
  /-- Its last value. -/
  last : List Char
  /-- The step, if one is given. -/
  step : Option (List Char)
  deriving DecidableEq, Repr

namespace CountedLoop

/-- Passes over the word that ends a header and the end of the text. -/
def overEnd {β : Type} (result : β) : List Char → Option β :=
  overSomeBlanks <| overKey "hacer".toList fun rest => if rest.isEmpty then some result else none

/-- Reads an optional step and the end of a header. -/
def stepAndEnd (s : List Char) : Option (Option (List Char)) :=
  (overSomeBlanks <| overKey "con".toList <| overSomeBlanks <| overKey "paso".toList <|
    overSomeBlanks <| shortest fun step rest => overEnd (some step) rest) s
  <|> overEnd none s

/-- Reads a header from its first value on. -/
def boundsAndStep (counter : List Char) : List Char → Option CountedLoop :=
  overBlanks <| shortest fun first rest =>
    (overSomeBlanks <| overKey "hasta".toList <| overSomeBlanks <| shortest fun last rest =>
      (stepAndEnd rest).map fun step => ⟨counter, first, last, step⟩) rest

/-- Reads the header of a counted loop. -/
def ofText? (line : List Char) : Option CountedLoop := do
  let (_, s) ← Text.splitKey? "para".toList line
  let s ← Text.skipSomeBlanks? s
  let (counter, s) ← Text.splitWord? s
  match Text.skipBlanks s with
  | '<' :: '-' :: s => boundsAndStep counter s
  | '=' :: s => boundsAndStep counter s
  | _ => none

/-- The step of the generated loop; 1 if none is given or it is empty. -/
def stepCode (loop : CountedLoop) : List Char :=
  let step := Text.trim (loop.step.getD [])
  if step.isEmpty then "1".toList else Expr.expression step

/-- The loop that the header opens.  It counts down if its step starts with a minus sign, and
introduces its counter if that is not declared. -/
def code (loop : CountedLoop) (names : Names) : List Char :=
  let v := loop.counter
  let step := loop.stepCode
  "for (".toList ++ (if names.contains v then [] else "let ".toList) ++ v ++ " = ".toList ++
    Expr.expression (Text.trim loop.first) ++ "; ".toList ++ v ++
    (if step.head? = some '-' then " >= ".toList else " <= ".toList) ++
    Expr.expression (Text.trim loop.last) ++ "; ".toList ++ v ++ " += ".toList ++ step ++
    ") \x7b".toList

end CountedLoop

/-- Converts the header of a counted loop, if it can be read. -/
def countedLoop? (line : List Char) (names : Names) : Option (List Char) :=
  (CountedLoop.ofText? line).map (·.code names)

/-- The comment that keeps a header that cannot be read. -/
def unconvertedLoop (line : List Char) : List Char := "// Para no convertido: ".toList ++ line

end Header

end Pseudocode
