import Pseudocode.Json.Basic
import Pseudocode.Text.Quoted

/-!
# Writing JSON

Strings are written so that they can stand in a web page: `<`, `>`, `&` and the two Unicode line
separators are escaped as well.

* `Json.compact` : a value without any blanks.
* `Json.indented` : a value over several lines, indented by two blanks a level.
-/

namespace Pseudocode

namespace Json

/-- A glyph as it is written in a string. -/
def writeGlyph : Text.Glyph → List Char
  | .stray _ => "\\ufffd".toList
  | .char c =>
    match c with
    | '"' => "\\\"".toList
    | '\\' => "\\\\".toList
    | '\x08' => "\\b".toList
    | '\x0c' => "\\f".toList
    | '\n' => "\\n".toList
    | '\r' => "\\r".toList
    | '\t' => "\\t".toList
    | _ =>
      if c.toNat < 32 || c ∈ ['<', '>', '&', '\u2028', '\u2029'] then
        "\\u".toList ++ Text.hex 4 c.toNat
      else [c]

/-- A string with its quotes. -/
def writeString (g : List Text.Glyph) : List Char := '"' :: g.flatMap writeGlyph ++ ['"']

/-- A value that holds no others. -/
def writeAtom : Json → List Char
  | .null => "null".toList
  | .bool true => "true".toList
  | .bool false => "false".toList
  | .number text => text
  | .string g => writeString g
  | _ => []

mutual

/-- A value without any blanks. -/
def compact : Json → List Char
  | .array items => '[' :: compactItems items ++ [']']
  | .object fields => '\x7b' :: compactFields fields ++ ['\x7d']
  | atom => writeAtom atom

/-- The items of an array. -/
def compactItems : List Json → List Char
  | [] => []
  | [j] => compact j
  | j :: rest => compact j ++ ',' :: compactItems rest

/-- The fields of an object. -/
def compactFields : List (List Char × Json) → List Char
  | [] => []
  | [(key, j)] => writeString (Text.glyphs key) ++ ':' :: compact j
  | (key, j) :: rest =>
    writeString (Text.glyphs key) ++ ':' :: compact j ++ ',' :: compactFields rest

end

/-- A line feed and the indentation of a level. -/
def newLine (level : Nat) : List Char := '\n' :: List.replicate (2 * level) ' '

mutual

/-- A value over several lines, at a level. -/
def indentedAt (level : Nat) : Json → List Char
  | .array [] => "[]".toList
  | .array items => '[' :: indentedItems (level + 1) items ++ newLine level ++ [']']
  | .object [] => "\x7b\x7d".toList
  | .object fields => '\x7b' :: indentedFields (level + 1) fields ++ newLine level ++ ['\x7d']
  | atom => writeAtom atom

/-- The items of an array, each on a line of its own. -/
def indentedItems (level : Nat) : List Json → List Char
  | [] => []
  | [j] => newLine level ++ indentedAt level j
  | j :: rest => newLine level ++ indentedAt level j ++ ',' :: indentedItems level rest

/-- The fields of an object, each on a line of its own. -/
def indentedFields (level : Nat) : List (List Char × Json) → List Char
  | [] => []
  | [(key, j)] =>
    newLine level ++ writeString (Text.glyphs key) ++ ": ".toList ++ indentedAt level j
  | (key, j) :: rest =>
    newLine level ++ writeString (Text.glyphs key) ++ ": ".toList ++ indentedAt level j ++
      ',' :: indentedFields level rest

end

/-- A value over several lines. -/
def indented (j : Json) : List Char := indentedAt 0 j

end Json

end Pseudocode
