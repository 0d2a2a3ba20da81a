/-!
# Spaces and lines

Two classes of space are in use.  A *space* is any character of Unicode's `White_Space`; texts are
trimmed and cut into fields by it.  A *blank* is one of the five characters that separate the
words of a statement.

* `trim` : a text without the spaces at its ends.
* `fields` : the words of a text between its spaces.
* `splitLines` : the lines of a text, without their line feeds.
-/

namespace Pseudocode

namespace Text

/-- The character is white space in any script. -/
def isSpace (c : Char) : Bool :=
  let n := c.toNat
  (9 ≤ n && n ≤ 13) || n == 32 || n == 133 || n == 160 || n == 5760 || (8192 ≤ n && n ≤ 8202) ||
    n == 8232 || n == 8233 || n == 8239 || n == 8287 || n == 12288

/-- The character separates the words of a statement: tab, line feed, form feed, carriage return
or blank. -/
def isBlank (c : Char) : Bool :=
  c == ' ' || c == '\t' || c == '\n' || c == '\r' || c == '\x0c'

/-- The text without the spaces it starts with. -/
def trimStart (s : List Char) : List Char := s.dropWhile isSpace

/-- The text without the spaces it ends with. -/
def trimEnd (s : List Char) : List Char := (s.reverse.dropWhile isSpace).reverse

/-- The text without the spaces at its ends. -/
def trim (s : List Char) : List Char := trimEnd (trimStart s)

theorem length_trim_le (s : List Char) : (trim s).length ≤ s.length := by
  unfold trim trimEnd trimStart
  rw [List.length_reverse]
  refine Nat.le_trans (List.dropWhile_sublist _).length_le ?_
  rw [List.length_reverse]
  exact (List.dropWhile_sublist _).length_le

/-- The text without the blanks it starts with. -/
def skipBlanks (s : List Char) : List Char := s.dropWhile isBlank

/-- The rest of the text after at least one blank, if it starts with one. -/
def skipSomeBlanks? : List Char → Option (List Char)
  | [] => none
  | c :: cs => if isBlank c then some (skipBlanks cs) else none

/-- The fields of a text, where `word` holds the field that is being read, last character first. -/
def fieldsFrom (word : List Char) : List Char → List (List Char)
  | [] => if word.isEmpty then [] else [word.reverse]
  | c :: cs =>
    if isSpace c then
      if word.isEmpty then fieldsFrom [] cs else word.reverse :: fieldsFrom [] cs
    else fieldsFrom (c :: word) cs

/-- The maximal runs of characters that are not spaces. -/
def fields (s : List Char) : List (List Char) := fieldsFrom [] s

/-- The pieces of a text between the occurrences of a separator, which may be empty. -/
def splitOn (sep : Char) : List Char → List (List Char)
  | [] => [[]]
  | c :: cs =>
    if c = sep then [] :: splitOn sep cs
    else match splitOn sep cs with
      | [] => [[c]]
      | piece :: pieces => (c :: piece) :: pieces

/-- The lines of a text; a text that ends with a line feed has an empty last line. -/
def splitLines (s : List Char) : List (List Char) := splitOn '\n' s

/-- The texts one after the other with a separator between them. -/
def join (sep : List Char) : List (List Char) → List Char
  | [] => []
  | [s] => s
  | s :: rest => s ++ sep ++ join sep rest

/-- The number of bytes that the text takes in UTF-8. -/
def byteLength (s : List Char) : Nat := s.foldr (fun c n => c.utf8Size + n) 0

end Text

end Pseudocode
