import Pseudocode.Json.Basic

/-!
# Reading JSON

A value is read off the front of a stream of bytes, and what follows it is of no concern.  The
bytes may stop before the value is complete, which is told apart from bytes that no value can start
with.

* `Json.read` : reads one value.
-/

namespace Pseudocode

namespace Json

/-- The outcome of reading something off the front of bytes. -/
inductive Reading (β : Type)
  /-- It was read, and the given bytes follow. -/
  | done (value : β) (rest : List UInt8)
  /-- The bytes stopped too early. -/
  | incomplete
  /-- The bytes cannot be continued to a value. -/
  | malformed

namespace Reading

/-- Goes on after what was read. -/
def bind {β γ : Type} (r : Reading β) (next : β → List UInt8 → Reading γ) : Reading γ :=
  match r with
  | done value rest => next value rest
  | incomplete => incomplete
  | malformed => malformed

end Reading

/-- The byte of an ASCII character. -/
def byte (c : Char) : UInt8 := UInt8.ofNat c.toNat

/-- The byte is white space. -/
def isSpaceByte (b : UInt8) : Bool := b == 32 || b == 9 || b == 10 || b == 13

/-- The bytes without the white space they start with. -/
def skipSpace (bytes : List UInt8) : List UInt8 := bytes.dropWhile isSpaceByte

/-- Reads a fixed word. -/
def readWord (value : Json) : List Char → List UInt8 → Reading Json
  | [], rest => .done value rest
  | _ :: _, [] => .incomplete
  | c :: word, b :: rest => if b = byte c then readWord value word rest else .malformed

/-- The value of a digit in base 16. -/
def hexValue? (b : UInt8) : Option Nat :=
  let n := b.toNat
  if 48 ≤ n && n ≤ 57 then some (n - 48)
  else if 97 ≤ n && n ≤ 102 then some (n - 87)
  else if 65 ≤ n && n ≤ 70 then some (n - 55)
  else none

/-- Reads four digits in base 16. -/
def readUnit (n : Nat) : (count : Nat) → List UInt8 → Reading Nat
  | 0, rest => .done n rest
  | _ + 1, [] => .incomplete
  | count + 1, b :: rest =>
    match hexValue? b with
    | some d => readUnit (n * 16 + d) count rest
    | none => .malformed

/-- The bytes of a code point, with the replacement character in place of a surrogate. -/
def codeBytes (n : Nat) : List UInt8 :=
  Text.encode [if 0xD800 ≤ n && n ≤ 0xDFFF then '�' else Char.ofNat n]

/-- The bytes that an escape of one letter stands for. -/
def escaped? (b : UInt8) : Option UInt8 :=
  if b = byte '"' || b = byte '\\' || b = byte '/' then some b
  else if b = byte 'b' then some 8
  else if b = byte 'f' then some 12
  else if b = byte 'n' then some 10
  else if b = byte 'r' then some 13
  else if b = byte 't' then some 9
  else none

/-- The low surrogate written as an escape at the front of bytes, and what follows it. -/
def lowSurrogate? : List UInt8 → Option (Nat × List UInt8)
  | b :: u :: rest =>
    if b = byte '\\' && u = byte 'u' then
      match readUnit 0 4 rest with
      | .done n rest => if 0xDC00 ≤ n && n ≤ 0xDFFF then some (n, rest) else none
      | _ => none
    else none
  | _ => none

/-- Reads a string from after its opening quote on; `held` are the bytes of its value so far, last
one first, and `fuel` bounds the number of bytes. -/
def readString : (fuel : Nat) → (held : List UInt8) → List UInt8 → Reading (List Text.Glyph)
  | 0, _, _ => .incomplete
  | _ + 1, _, [] => .incomplete
  | fuel + 1, held, b :: rest =>
    if b = byte '"' then .done (Text.decode held.reverse) rest
    else if b.toNat < 32 then .malformed
    else if b ≠ byte '\\' then readString fuel (b :: held) rest
    else match rest with
      | [] => .incomplete
      | e :: rest =>
        if e = byte 'u' then
          (readUnit 0 4 rest).bind fun n rest =>
            match if 0xD800 ≤ n && n ≤ 0xDBFF then lowSurrogate? rest else none with
            | some (low, rest) =>
              let code := 0x10000 + (n - 0xD800) * 0x400 + (low - 0xDC00)
              readString fuel ((codeBytes code).reverse ++ held) rest
            | none => readString fuel ((codeBytes n).reverse ++ held) rest
        else match escaped? e with
          | some x => readString fuel (x :: held) rest
          | none => .malformed

/-- The byte is a digit. -/
def isDigitByte (b : UInt8) : Bool := 48 ≤ b.toNat && b.toNat ≤ 57

/-- Reads at least one digit and those that follow. -/
def readDigits (bytes : List UInt8) : Reading (List UInt8) :=
  match bytes with
  | [] => .incomplete
  | b :: _ =>
    if isDigitByte b then .done (bytes.takeWhile isDigitByte) (bytes.dropWhile isDigitByte)
    else .malformed

/-- Reads the whole part of a number, which has no leading zeros. -/
def readWhole : List UInt8 → Reading (List UInt8)
  | [] => .incomplete
  | b :: rest => if b = byte '0' then .done [b] rest else readDigits (b :: rest)

/-- Reads the fraction of a number, if there is one. -/
def readFraction : List UInt8 → Reading (List UInt8)
  | [] => .done [] []
  | b :: rest =>
    if b = byte '.' then (readDigits rest).bind fun digits rest => .done (b :: digits) rest
    else .done [] (b :: rest)

/-- Reads the sign of an exponent, if there is one. -/
def readSign : List UInt8 → List UInt8 × List UInt8
  | [] => ([], [])
  | b :: rest => if b = byte '+' || b = byte '-' then ([b], rest) else ([], b :: rest)

/-- Reads the exponent of a number, if there is one. -/
def readExponent : List UInt8 → Reading (List UInt8)
  | [] => .done [] []
  | b :: rest =>
    if b = byte 'e' || b = byte 'E' then
      let (sign, rest) := readSign rest
      (readDigits rest).bind fun digits rest => .done (b :: sign ++ digits) rest
    else .done [] (b :: rest)

/-- Reads a number whose sign has been read. -/
def readUnsigned (sign bytes : List UInt8) : Reading Json :=
  (readWhole bytes).bind fun whole rest =>
    (readFraction rest).bind fun fraction rest =>
      (readExponent rest).bind fun exponent rest =>
        .done (.number (Text.lossy (Text.decode (sign ++ whole ++ fraction ++ exponent)))) rest

/-- Reads a number. -/
def readNumber : List UInt8 → Reading Json
  | [] => .incomplete
  | b :: rest => if b = byte '-' then readUnsigned [b] rest else readUnsigned [] (b :: rest)

/-- The greatest number of arrays and objects inside one another. -/
def maxNesting : Nat := 10000

mutual

/-- Reads a value at a nesting level. -/
def readValue : (fuel : Nat) → (level : Nat) → List UInt8 → Reading Json
  | 0, _, _ => .incomplete
  | fuel + 1, level, bytes =>
    match skipSpace bytes with
    | [] => .incomplete
    | b :: rest =>
      if b = byte '"' then
        (readString (rest.length + 1) [] rest).bind fun text rest => .done (.string text) rest
      else if b = byte 'n' then readWord .null "ull".toList rest
      else if b = byte 't' then readWord (.bool true) "rue".toList rest
      else if b = byte 'f' then readWord (.bool false) "alse".toList rest
      else if b = byte '[' then
        if level = maxNesting then .malformed
        else match skipSpace rest with
          | [] => .incomplete
          | c :: rest =>
            if c = byte ']' then .done (.array []) rest
            else readItems fuel (level + 1) [] (c :: rest)
      else if b = byte '\x7b' then
        if level = maxNesting then .malformed
        else match skipSpace rest with
          | [] => .incomplete
          | c :: rest =>
            if c = byte '\x7d' then .done (.object []) rest
            else readFields fuel (level + 1) [] (c :: rest)
      else readNumber (b :: rest)

/-- Reads the items of an array; `held` are those read so far, last one first. -/
def readItems : (fuel : Nat) → (level : Nat) → (held : List Json) → List UInt8 → Reading Json
  | 0, _, _, _ => .incomplete
  | fuel + 1, level, held, bytes =>
    (readValue fuel level bytes).bind fun item rest =>
      match skipSpace rest with
      | [] => .incomplete
      | b :: rest =>
        if b = byte ',' then readItems fuel level (item :: held) rest
        else if b = byte ']' then .done (.array (item :: held).reverse) rest
        else .malformed

/-- Reads the fields of an object; `held` are those read so far, last one first. -/
def readFields : (fuel : Nat) → (level : Nat) → (held : List (List Char × Json)) →
    List UInt8 → Reading Json
  | 0, _, _, _ => .incomplete
  | fuel + 1, level, held, bytes =>
    match skipSpace bytes with
    | [] => .incomplete
    | q :: rest =>
      if q ≠ byte '"' then .malformed
      else (readString (rest.length + 1) [] rest).bind fun key rest =>
        match skipSpace rest with
        | [] => .incomplete
        | b :: rest =>
          if b ≠ byte ':' then .malformed
          else (readValue fuel level rest).bind fun value rest =>
            let held := (Text.lossy key, value) :: held
            match skipSpace rest with
            | [] => .incomplete
            | b :: rest =>
              if b = byte ',' then readFields fuel level held rest
              else if b = byte '\x7d' then .done (.object held.reverse) rest
              else .malformed

end

/-- Reads one value off the front of bytes. -/
def read (bytes : List UInt8) : Reading Json := readValue (2 * bytes.length + 2) 0 bytes

end Json

end Pseudocode
