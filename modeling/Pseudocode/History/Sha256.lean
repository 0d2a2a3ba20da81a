/-!
# SHA-256

The digest that identifies a source without keeping it.
-/

namespace Pseudocode

namespace Sha256

/-- The constants of the rounds. -/
def roundConstants : List UInt32 :=
  [0x428a2f98, 0x71374491, 0xb5c0fbcf, 0xe9b5dba5, 0x3956c25b, 0x59f111f1, 0x923f82a4, 0xab1c5ed5,
   0xd807aa98, 0x12835b01, 0x243185be, 0x550c7dc3, 0x72be5d74, 0x80deb1fe, 0x9bdc06a7, 0xc19bf174,
   0xe49b69c1, 0xefbe4786, 0x0fc19dc6, 0x240ca1cc, 0x2de92c6f, 0x4a7484aa, 0x5cb0a9dc, 0x76f988da,
   0x983e5152, 0xa831c66d, 0xb00327c8, 0xbf597fc7, 0xc6e00bf3, 0xd5a79147, 0x06ca6351, 0x14292967,
   0x27b70a85, 0x2e1b2138, 0x4d2c6dfc, 0x53380d13, 0x650a7354, 0x766a0abb, 0x81c2c92e, 0x92722c85,
   0xa2bfe8a1, 0xa81a664b, 0xc24b8b70, 0xc76c51a3, 0xd192e819, 0xd6990624, 0xf40e3585, 0x106aa070,
   0x19a4c116, 0x1e376c08, 0x2748774c, 0x34b0bcb5, 0x391c0cb3, 0x4ed8aa4a, 0x5b9cca4f, 0x682e6ff3,
   0x748f82ee, 0x78a5636f, 0x84c87814, 0x8cc70208, 0x90befffa, 0xa4506ceb, 0xbef9a3f7, 0xc67178f2]

/-- The eight words that are carried from block to block. -/
structure State where
  (a b c d e f g h : UInt32)
  deriving DecidableEq, Repr

namespace State

/-- The words before the first block. -/
def start : State :=
  ⟨0x6a09e667, 0xbb67ae85, 0x3c6ef372, 0xa54ff53a, 0x510e527f, 0x9b05688c, 0x1f83d9ab, 0x5be0cd19⟩

/-- Sums of words, one by one. -/
def add (s t : State) : State :=
  ⟨s.a + t.a, s.b + t.b, s.c + t.c, s.d + t.d, s.e + t.e, s.f + t.f, s.g + t.g, s.h + t.h⟩

/-- The words in order. -/
def words (s : State) : List UInt32 := [s.a, s.b, s.c, s.d, s.e, s.f, s.g, s.h]

end State

/-- A word rotated to the right. -/
def rotate (x n : UInt32) : UInt32 := (x >>> n) ||| (x <<< (32 - n))

/-- One round with its constant and its word of the message. -/
def round (s : State) (k w : UInt32) : State :=
  let s₁ := rotate s.e 6 ^^^ rotate s.e 11 ^^^ rotate s.e 25
  let choice := (s.e &&& s.f) ^^^ ((s.e ^^^ 0xFFFFFFFF) &&& s.g)
  let t₁ := s.h + s₁ + choice + k + w
  let s₀ := rotate s.a 2 ^^^ rotate s.a 13 ^^^ rotate s.a 22
  let majority := (s.a &&& s.b) ^^^ (s.a &&& s.c) ^^^ (s.b &&& s.c)
  ⟨t₁ + (s₀ + majority), s.a, s.b, s.c, s.d + t₁, s.e, s.f, s.g⟩

/-- The word that follows sixteen words of the message. -/
def nextWord (window : List UInt32) : UInt32 :=
  let word (i : Nat) := window.getD i 0
  let x := word 1
  let y := word 14
  let s₀ := rotate x 7 ^^^ rotate x 18 ^^^ (x >>> 3)
  let s₁ := rotate y 17 ^^^ rotate y 19 ^^^ (y >>> 10)
  word 0 + s₀ + word 9 + s₁

/-- The rounds for a block, of which the next sixteen words are in the window. -/
def rounds (s : State) (window : List UInt32) : List UInt32 → State
  | [] => s
  | k :: ks =>
    rounds (round s k (window.getD 0 0)) (window.tail ++ [nextWord window]) ks

/-- A word from four bytes, the first one highest. -/
def word (bytes : List UInt8) : UInt32 :=
  bytes.foldl (fun w b => (w <<< 8) ||| b.toUInt32) 0

/-- The bytes cut into pieces of `size`, of which there are `count`. -/
def pieces (size : Nat) : (count : Nat) → List UInt8 → List (List UInt8)
  | 0, _ => []
  | count + 1, bytes => bytes.take size :: pieces size count (bytes.drop size)

/-- Adds a block of 64 bytes to the digest. -/
def addBlock (s : State) (block : List UInt8) : State :=
  s.add (rounds s ((pieces 4 16 block).map word) roundConstants)

/-- The bytes of a number, `count` of them, the highest first. -/
def bigEndian : (count : Nat) → Nat → List UInt8
  | 0, _ => []
  | count + 1, n => bigEndian count (n / 256) ++ [UInt8.ofNat (n % 256)]

/-- The message filled up to whole blocks: a one bit, zeros and the number of bits. -/
def pad (message : List UInt8) : List UInt8 :=
  let zeros := (119 - message.length % 64) % 64
  message ++ 0x80 :: List.replicate zeros 0 ++ bigEndian 8 (8 * message.length)

/-- The digest of a message, as 32 bytes. -/
def digest (message : List UInt8) : List UInt8 :=
  let padded := pad message
  let last := (pieces 64 (padded.length / 64) padded).foldl addBlock State.start
  last.words.flatMap fun w => bigEndian 4 w.toNat

end Sha256

end Pseudocode
