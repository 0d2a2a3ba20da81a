import Pseudocode.Text.Utf8

/-!
# JSON values

Numbers are kept as they are written, and strings as glyphs, because a text that is put into an
answer may hold bytes that are no characters.
-/

namespace Pseudocode

/-- A JSON value. -/
inductive Json
  | null
  | bool (b : Bool)
  | number (text : List Char)
  | string (text : List Text.Glyph)
  | array (items : List Json)
  | object (fields : List (List Char × Json))
  deriving Inhabited, Repr

namespace Json

/-- An integer. -/
def int (n : Int) : Json := .number (toString n).toList

/-- A text. -/
def str (s : String) : Json := .string (Text.glyphs s.toList)

/-- A list of texts. -/
def strs (l : List String) : Json := .array (l.map str)

/-- An object whose keys are given as strings. -/
def obj (fields : List (String × Json)) : Json :=
  .object (fields.map fun (key, value) => (key.toList, value))

end Json

end Pseudocode
