import Pseudocode.Text.Space
import Pseudocode.Text.Letter
import Pseudocode.Text.Number

/-!
# Words, keywords and identifiers

Keywords may be written in any letter case.  A character stands for a letter of a keyword if the
two have the same simple case folding, so the long s and the kelvin sign stand for `s` and `k`.

* `splitKey?` : reads a keyword off the front of a text.
* `atBoundary` : the place between two characters is the border of a word.
* `stripKey` : a text without the keyword it starts with.
* `hasKeyword` : a text starts with a whole word.
* `identifier` : the identifier at the front of a text.
-/

namespace Pseudocode

namespace Text

/-- The letter of a keyword that a character stands for; other characters stand for themselves. -/
def keyChar (c : Char) : Char :=
  if c = '\u017f' then 's' else if c = '\u212a' then 'k' else if c = 'Ó' then 'ó' else c.toLower

/-- An ASCII letter or digit, or the underscore. -/
def isWordChar (c : Char) : Bool := c.isAlphanum || c == '_'

/-- A character that stands for a word character up to letter case. -/
def isLooseWordChar (c : Char) : Bool := isWordChar (keyChar c)

/-- The place between two neighbours is the border of a word; a missing neighbour is an end of the
text. -/
def atBoundary (before after : Option Char) : Bool :=
  before.any isWordChar != after.any isWordChar

/-- Reads the keyword `key`, given in lower case, off the front of a text: what was read and the
rest. -/
def splitKey? : (key : List Char) → List Char → Option (List Char × List Char)
  | [], s => some ([], s)
  | _ :: _, [] => none
  | k :: key, c :: cs =>
    if keyChar c = k then (splitKey? key cs).map fun (read, rest) => (c :: read, rest) else none

/-- What is read and the rest make up the text, and what is read is as long as the keyword. -/
theorem length_of_splitKey? {key s read rest : List Char}
    (h : splitKey? key s = some (read, rest)) :
    read.length = key.length ∧ read.length + rest.length = s.length := by
  induction key generalizing s read with
  | nil =>
    simp only [splitKey?, Option.some.injEq, Prod.mk.injEq] at h
    obtain ⟨rfl, rfl⟩ := h
    simp
  | cons k key ih =>
    cases s with
    | nil => simp [splitKey?] at h
    | cons c cs =>
      rw [splitKey?] at h
      split at h
      · simp only [Option.map_eq_some_iff, Prod.exists, Prod.mk.injEq] at h
        obtain ⟨read', rest', hs, rfl, rfl⟩ := h
        obtain ⟨h₁, h₂⟩ := ih hs
        simp only [List.length_cons]
        omega
      · simp at h

/-- Reads the first of several keywords that the text starts with. -/
def splitAnyKey? (keys : List (List Char)) (s : List Char) : Option (List Char × List Char) :=
  keys.findSome? (splitKey? · s)

/-- Reads a keyword that is followed by the border of a word. -/
def splitWholeKey? (key : List Char) (s : List Char) : Option (List Char × List Char) :=
  (splitKey? key s).filter fun (read, rest) => atBoundary read.getLast? rest.head?

/-- The text without the keyword it starts with, trimmed. -/
def stripKey (key : List Char) (s : List Char) : List Char :=
  match splitKey? key s with
  | some (_, rest) => trim rest
  | none => trim s

/-- The text without the keyword it starts with as a whole word, trimmed. -/
def stripWholeKey (key : List Char) (s : List Char) : List Char :=
  match splitWholeKey? key s with
  | some (_, rest) => trim rest
  | none => trim s

/-- What stands before the keyword that ends a text, if it ends with that keyword. -/
def dropLastKey? (key : List Char) (s : List Char) : Option (List Char) :=
  (splitKey? key.reverse s.reverse).map fun (_, rest) => rest.reverse

/-- The text without the keyword it ends with as a whole word, trimmed. -/
def stripLastKey (key : List Char) (s : List Char) : List Char :=
  match dropLastKey? key s with
  | some before => if atBoundary before.getLast? key.head? then trim before else trim s
  | none => trim s

/-- What stands before the blanks that end a text, if it ends with at least one. -/
def dropLastBlanks? (s : List Char) : Option (List Char) :=
  (skipSomeBlanks? s.reverse).map List.reverse

/-- The character can stand in a name: a letter, a decimal digit or the underscore. -/
def isNameChar (c : Char) : Bool := c == '_' || isLetter c || isDigit c

/-- The text starts with `word`, and no character of a name follows. -/
def hasKeyword (word : List Char) (s : List Char) : Bool :=
  word.isPrefixOf s && !((s.drop word.length).head?.any isNameChar)

/-- The character can start an identifier: a letter or the underscore. -/
def isIdentifierStart (c : Char) : Bool := c == '_' || isLetter c

/-- The character can continue an identifier: a letter, a number or the underscore. -/
def isIdentifierRest (c : Char) : Bool := c == '_' || isLetter c || isNumber c

/-- The longest identifier at the front of a text, and the rest; the identifier is empty if there
is none. -/
def splitIdentifier : List Char → List Char × List Char
  | [] => ([], [])
  | c :: cs =>
    if isIdentifierStart c then
      (c :: cs.takeWhile isIdentifierRest, cs.dropWhile isIdentifierRest)
    else ([], c :: cs)

/-- The longest identifier at the front of a text, empty if there is none. -/
def identifier (s : List Char) : List Char := (splitIdentifier s).1

/-- Reads a word of at least one character, letter case aside, off the front of a text. -/
def splitWord? (s : List Char) : Option (List Char × List Char) :=
  let word := s.takeWhile isLooseWordChar
  if word.isEmpty then none else some (word, s.dropWhile isLooseWordChar)

end Text

end Pseudocode
