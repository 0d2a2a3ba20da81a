import Pseudocode.Scan.TopLevel
import Pseudocode.Text.LowerCase
import Pseudocode.Text.Word

/-!
# Source lines

A program is a list of its lines that are not blank.  The code of a line is its text without a
comment at the end and without a semicolon; keywords are recognised in the lower-case code.

* `SourceLine.ofText?`, `sourceLines` : the lines of a text.
* `SourceLine.isProgramStart` and the like : the lines that mark programs and functions.
-/

namespace Pseudocode

/-- A line of pseudocode that is not blank. -/
structure SourceLine where
  /-- Its number in the source. -/
  num : Int
  /-- Its trimmed text. -/
  text : List Char
  /-- The text without the comment and the semicolon that end it. -/
  code : List Char
  /-- The code in lower case. -/
  lower : List Char
  deriving DecidableEq, Repr

/-- Joins the two words of a terminator such as `fin si` into one. -/
def closerName (lower : List Char) : List Char :=
  if "fin".toList.isPrefixOf lower then "fin".toList ++ Text.trim (lower.drop 3) else lower

/-- The mark of a comment. -/
def commentMark : List Char := "//".toList

namespace SourceLine

/-- The text before a comment that does not start the line. -/
def withoutComment (text : List Char) : List Char :=
  match Scan.breakCode? commentMark text with
  | some (c :: front, _) => Text.trim (c :: front)
  | _ => text

/-- The text without one semicolon at its end, trimmed. -/
def withoutSemicolon (text : List Char) : List Char :=
  Text.trim (if text.getLast? = some ';' then text.dropLast else text)

/-- The code of a line. -/
def codeOf (text : List Char) : List Char := withoutSemicolon (withoutComment text)

/-- The line of the given number, unless it is blank. -/
def ofText? (num : Int) (raw : List Char) : Option SourceLine :=
  let text := Text.trim raw
  if text.isEmpty then none else some ⟨num, text, codeOf text, Text.lower (codeOf text)⟩

/-- The lines that are not blank, numbered on from `num`. -/
def ofRaws : (num : Int) → List (List Char) → List SourceLine
  | _, [] => []
  | num, raw :: raws =>
    match ofText? num raw with
    | some l => l :: ofRaws (num + 1) raws
    | none => ofRaws (num + 1) raws

/-- The whole line is a comment. -/
def isComment (l : SourceLine) : Bool := commentMark.isPrefixOf l.text

/-- The code starts with a word, given in lower case. -/
def hasKeyword (l : SourceLine) (word : String) : Bool := Text.hasKeyword word.toList l.lower

/-- The code is a terminator, given in lower case as one word. -/
def isCloser (l : SourceLine) (name : String) : Bool := closerName l.lower == name.toList

/-- The line starts a main program. -/
def isProgramStart (l : SourceLine) : Bool :=
  !l.isComment && (l.hasKeyword "algoritmo" || l.hasKeyword "proceso")

/-- The line ends a main program. -/
def isProgramEnd (l : SourceLine) : Bool := l.isCloser "finalgoritmo" || l.isCloser "finproceso"

/-- The line starts a function. -/
def isFunctionStart (l : SourceLine) : Bool :=
  l.hasKeyword "funcion" || l.hasKeyword "función" || l.hasKeyword "subproceso"

/-- The line ends a function. -/
def isFunctionEnd (l : SourceLine) : Bool :=
  l.isCloser "finfuncion" || l.isCloser "finfunción" || l.isCloser "finsubproceso"

/-- The name of a program that does not give one. -/
def defaultProgramName : List Char := "programa".toList

/-- The identifier that starts the second word of the line. -/
def programName (l : SourceLine) : List Char :=
  match Text.fields l.code with
  | _ :: field :: _ =>
    if (Text.identifier field).isEmpty then defaultProgramName else Text.identifier field
  | _ => defaultProgramName

end SourceLine

/-- The lines of a text that are not blank, numbered on from `first`. -/
def sourceLines (first : Int) (src : List Char) : List SourceLine :=
  SourceLine.ofRaws first (Text.splitLines src)

end Pseudocode
