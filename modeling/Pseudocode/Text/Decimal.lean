/-!
# Decimal integers

Integers are read in base 10 with an optional sign and must fit in 64 bits.  A text may fail in two
ways, and the first failure from the left counts: digits that exceed an unsigned 64-bit number are
out of range whatever follows them.
-/

namespace Pseudocode

namespace Text

/-- Why a text is no integer of 64 bits. -/
inductive IntegerError
  | malformed
  | outOfRange
  deriving DecidableEq, Repr

namespace IntegerError

/-- The wording of the reason. -/
def reason : IntegerError → String
  | malformed => "invalid syntax"
  | outOfRange => "value out of range"

end IntegerError

/-- Reads digits after those with the value `n`. -/
def digitsFrom (n : Nat) : List Char → Except IntegerError Nat
  | [] => .ok n
  | c :: cs =>
    if c.isDigit then
      let m := n * 10 + (c.toNat - '0'.toNat)
      if m < Nat.pow 2 64 then digitsFrom m cs else .error .outOfRange
    else .error .malformed

/-- Reads at least one digit. -/
def natural (s : List Char) : Except IntegerError Nat :=
  if s.isEmpty then .error .malformed else digitsFrom 0 s

/-- Reads a signed integer of 64 bits. -/
def integer (s : List Char) : Except IntegerError Int := do
  let (negative, digits) := match s with
    | '+' :: rest => (false, rest)
    | '-' :: rest => (true, rest)
    | _ => (false, s)
  let n ← natural digits
  if negative then
    if n ≤ Nat.pow 2 63 then .ok (-n) else .error .outOfRange
  else
    if n < Nat.pow 2 63 then .ok n else .error .outOfRange

end Text

end Pseudocode
