import Pseudocode.Text.Printable
import Pseudocode.Text.Utf8

/-!
# Quoted text

Text inside a message is put between double quotes, with everything escaped that would not show:
control characters, characters that are not printable, and bytes that are no characters.
-/

namespace Pseudocode

namespace Text

/-- The digits of a number in base 16, in lower case, `width` of them. -/
def hex : (width : Nat) → Nat → List Char
  | 0, _ => []
  | width + 1, n => hex width (n / 16) ++ [Nat.digitChar (n % 16)]

/-- The escape of a character that is written by one letter. -/
def shortEscape? : Char → Option Char
  | '"' => some '"'
  | '\\' => some '\\'
  | '\x07' => some 'a'
  | '\x08' => some 'b'
  | '\x0c' => some 'f'
  | '\n' => some 'n'
  | '\r' => some 'r'
  | '\t' => some 't'
  | '\x0b' => some 'v'
  | _ => none

/-- A glyph as it is written between quotes. -/
def quoteGlyph : Glyph → List Char
  | .stray b => "\\x".toList ++ hex 2 b.toNat
  | .char c =>
    match shortEscape? c with
    | some e => ['\\', e]
    | none =>
      if isPrintable c then [c]
      else if c.toNat < 128 then "\\x".toList ++ hex 2 c.toNat
      else if c.toNat < 65536 then "\\u".toList ++ hex 4 c.toNat
      else "\\U".toList ++ hex 8 c.toNat

/-- Glyphs between quotes. -/
def quoteGlyphs (g : List Glyph) : List Char := '"' :: g.flatMap quoteGlyph ++ ['"']

/-- A text between quotes. -/
def quote (s : List Char) : List Char := quoteGlyphs (glyphs s)

end Text

end Pseudocode
