import Pseudocode.Text.Number
import Pseudocode.Text.Letter
import Pseudocode.Text.Space
import Pseudocode.Text.Utf8

/-!
# Environment files

A file of lines `KEY=value`, each optionally after the word `export`.  Lines that start with `#` are
comments, and so is what follows a `#` after a blank.  A value may stand between quotes; between
double quotes, escapes are replaced.  Values may refer to keys defined earlier in the file.

* `EnvFile.parse` : the definitions in a file, none if it has another form.
-/

namespace Pseudocode

namespace EnvFile

/-- Definitions, a later one of a key in front of an earlier one. -/
abbrev Definitions := List (List Char × List Char)

/-- The character is space within a line. -/
def isLineSpace (c : Char) : Bool :=
  c == '\t' || c == '\x0b' || c == '\x0c' || c == '\r' || c == ' ' || c.toNat == 0x85 ||
    c.toNat == 0xA0

/-- The text without the spaces at its ends. -/
def trimLine (s : List Char) : List Char :=
  ((s.dropWhile isLineSpace).reverse.dropWhile isLineSpace).reverse

/-- The text in which a carriage return before a line feed is dropped. -/
def unixLines : List Char → List Char
  | [] => []
  | '\r' :: '\n' :: cs => '\n' :: unixLines cs
  | c :: cs => c :: unixLines cs

/-- The text from the first definition on; `inComment` tells that a comment is being passed. -/
def skipToStatement : (inComment : Bool) → List Char → List Char
  | _, [] => []
  | true, c :: cs => skipToStatement (c != '\n') cs
  | false, c :: cs =>
    if Text.isSpace c then skipToStatement false cs
    else if c = '#' then skipToStatement true cs
    else c :: cs

/-- The text after the word `export`, if it starts with that word and a space. -/
def skipExport (s : List Char) : List Char :=
  let rest := s.drop 6
  if "export".toList.isPrefixOf s && rest.head?.any isLineSpace then rest.dropWhile isLineSpace
  else s

/-- A byte of a key: a letter, a number, a point or an underscore of Latin 1. -/
def isKeyByte (b : UInt8) : Bool :=
  let c := Char.ofNat b.toNat
  c == '_' || c == '.' || Text.isLetter c || Text.isNumber c || isLineSpace c

/-- The character can stand in a key. -/
def isKeyChar (c : Char) : Bool := (Text.encode [c]).all isKeyByte

/-- The character separates a key from its value. -/
def isSeparator (c : Char) : Bool := c == '=' || c == ':'

/-- The key at the front of a text, without the spaces that end it, and the text after the
separator.  A text that ends inside the key, unless it is empty, has an empty key and is a value as
a whole. -/
def splitKeyName? (s : List Char) : Option (List Char × List Char) :=
  let key := s.takeWhile isKeyChar
  match s.dropWhile isKeyChar with
  | [] => if s.isEmpty then none else some ([], s)
  | c :: rest =>
    if isSeparator c then
      some ((key.reverse.dropWhile Text.isSpace).reverse, rest.dropWhile isLineSpace)
    else none

/-- The part of an unquoted value before a comment; `before` is the character before the text. -/
def beforeComment : (before : Option Char) → List Char → List Char
  | _, [] => []
  | before, c :: cs =>
    if c = '#' && before.any isLineSpace then [] else c :: beforeComment (some c) cs

/-- Replaces escapes: `\n` and `\r` are line ends, a dollar stays escaped, and any other character
stands for itself. -/
def unescape : List Char → List Char
  | [] => []
  | '\\' :: 'n' :: cs => '\n' :: unescape cs
  | '\\' :: 'r' :: cs => '\r' :: unescape cs
  | '\\' :: '$' :: cs => '\\' :: '$' :: unescape cs
  | '\\' :: c :: cs => c :: unescape cs
  | c :: cs => c :: unescape cs

/-- The character can stand in the name of a reference. -/
def isReferenceChar (c : Char) : Bool := c.isUpper || c.isDigit || c == '_'

/-- A reference at the front of a text that follows a dollar: the name, which may be empty, and the
number of characters that belong to it. -/
def splitReference (s : List Char) : List Char × Nat :=
  let paren := if s.head? = some '(' then 1 else 0
  let s := s.drop paren
  let opening := if s.head? = some '\x7b' then 1 else 0
  let s := s.drop opening
  let name := s.takeWhile isReferenceChar
  let closing := if (s.drop name.length).head? = some '\x7d' then 1 else 0
  (name, paren + opening + name.length + closing)

/-- Replaces references to keys by their values; the first `skip` characters have been replaced
already.  An escaped dollar loses its escape, and a dollar without a name stays. -/
def expandFrom (defs : Definitions) : (skip : Nat) → List Char → List Char
  | _, [] => []
  | skip + 1, _ :: cs => expandFrom defs skip cs
  | 0, '\\' :: '$' :: cs =>
    let n := (splitReference cs).2
    '$' :: cs.take n ++ expandFrom defs n cs
  | 0, '$' :: cs =>
    let (name, n) := splitReference cs
    (if name.isEmpty then '$' :: cs.take n else (defs.lookup name).getD []) ++
      expandFrom defs n cs
  | 0, c :: cs => c :: expandFrom defs 0 cs

/-- Replaces references to keys by their values. -/
def expand (defs : Definitions) (s : List Char) : List Char := expandFrom defs 0 s

/-- The text up to the quote that ends a quoted value, and what follows it; `before` is the
character before the text. -/
def upToQuote? (quote before : Char) : List Char → Option (List Char × List Char)
  | [] => none
  | c :: cs =>
    if c = quote && before != '\\' then some ([], cs)
    else (upToQuote? quote c cs).map fun (value, rest) => (c :: value, rest)

/-- A quoted value without quotes at its ends. -/
def trimQuotes (quote : Char) (s : List Char) : List Char :=
  ((s.reverse.dropWhile (· == quote)).reverse).dropWhile (· == quote)

/-- A value at the front of a text, and what follows it. -/
def splitValue? (defs : Definitions) (s : List Char) : Option (List Char × List Char) :=
  match s with
  | '"' :: cs => (upToQuote? '"' '"' cs).map fun (value, rest) =>
    (expand defs (unescape (trimQuotes '"' value)), rest)
  | '\'' :: cs => (upToQuote? '\'' '\'' cs).map fun (value, rest) => (trimQuotes '\'' value, rest)
  | _ =>
    let isEnd (c : Char) := c == '\n' || c == '\r'
    let line := s.takeWhile (!isEnd ·)
    some (expand defs (trimLine (beforeComment none line)), s.dropWhile (!isEnd ·))

/-- Reads definitions; `fuel` bounds their number. -/
def parseFrom : (fuel : Nat) → Definitions → List Char → Option Definitions
  | 0, defs, _ => some defs
  | fuel + 1, defs, s =>
    match skipToStatement false s with
    | [] => some defs
    | c :: cs => do
      let (key, rest) ← splitKeyName? (skipExport (c :: cs))
      let (value, rest) ← splitValue? defs rest
      parseFrom fuel ((key, value) :: defs) rest

/-- The definitions in a file, none if it has another form. -/
def parse (s : List Char) : Option Definitions :=
  let s := unixLines s
  parseFrom (s.length + 1) [] s

end EnvFile

end Pseudocode
