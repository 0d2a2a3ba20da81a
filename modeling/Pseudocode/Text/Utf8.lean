/-!
# Bytes and characters

Bytes that come from outside need not be UTF-8.  They are read as a list of glyphs: the characters
they encode, and single bytes that belong to no character.

* `encode` : the bytes of a text.
* `decode` : the glyphs of bytes.
-/

namespace Pseudocode

namespace Text

/-- A character, or a byte that belongs to none. -/
inductive Glyph
  | char (c : Char)
  | stray (b : UInt8)
  deriving DecidableEq, Repr

/-- The bytes of a text in UTF-8. -/
def encode (s : List Char) : List UInt8 := s.flatMap String.utf8EncodeChar

/-- The low six bits of a byte that continues a character, if its value lies in the given range. -/
def continuation? (b : UInt8) (lo hi : Nat) : Option Nat :=
  if lo ≤ b.toNat && b.toNat ≤ hi then some (b.toNat % 64) else none

/-- The character that starts with the byte `b`, with the number of bytes after `b` that it
takes.  Overlong forms, surrogates and values above U+10FFFF are no characters. -/
def charAt? (b : UInt8) (rest : List UInt8) : Option (Char × Nat) :=
  let n := b.toNat
  let lo := if n = 0xE0 then 0xA0 else if n = 0xF0 then 0x90 else 0x80
  let hi := if n = 0xED then 0x9F else if n = 0xF4 then 0x8F else 0xBF
  if n < 0x80 then some (Char.ofNat n, 0)
  else if 0xC2 ≤ n && n ≤ 0xDF then
    match rest with
    | c :: _ => do
      let x ← continuation? c lo hi
      return (Char.ofNat ((n - 0xC0) * 64 + x), 1)
    | _ => none
  else if 0xE0 ≤ n && n ≤ 0xEF then
    match rest with
    | c :: d :: _ => do
      let x ← continuation? c lo hi
      let y ← continuation? d 0x80 0xBF
      return (Char.ofNat (((n - 0xE0) * 64 + x) * 64 + y), 2)
    | _ => none
  else if 0xF0 ≤ n && n ≤ 0xF4 then
    match rest with
    | c :: d :: e :: _ => do
      let x ← continuation? c lo hi
      let y ← continuation? d 0x80 0xBF
      let z ← continuation? e 0x80 0xBF
      return (Char.ofNat ((((n - 0xF0) * 64 + x) * 64 + y) * 64 + z), 3)
    | _ => none
  else none

/-- The glyphs of bytes of which the first `skip` belong to a character that has been read. -/
def decodeFrom : (skip : Nat) → List UInt8 → List Glyph
  | _, [] => []
  | skip + 1, _ :: rest => decodeFrom skip rest
  | 0, b :: rest =>
    match charAt? b rest with
    | some (c, n) => .char c :: decodeFrom n rest
    | none => .stray b :: decodeFrom 0 rest

/-- The glyphs of bytes. -/
def decode (bytes : List UInt8) : List Glyph := decodeFrom 0 bytes

/-- The text of which all glyphs are characters. -/
def glyphs (s : List Char) : List Glyph := s.map .char

/-- The characters of glyphs, with the replacement character in place of stray bytes. -/
def Glyph.toChar : Glyph → Char
  | .char c => c
  | .stray _ => '�'

/-- The text of glyphs, with the replacement character in place of stray bytes. -/
def lossy (g : List Glyph) : List Char := g.map Glyph.toChar

end Text

end Pseudocode
