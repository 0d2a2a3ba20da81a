import Pseudocode.Convert
import Pseudocode.History.Instant
import Pseudocode.History.Sha256
import Pseudocode.Text.Utf8

/-!
# Entries of the history

An entry holds the outcome of a conversion and the digest of its source.

* `Entry.ofConversion` : what is kept of a conversion.
* `Clock` : the times at which entries are recorded.
-/

namespace Pseudocode

/-- An entry of the history. -/
structure Entry where
  /-- Its number, from 1 on once it is recorded. -/
  id : Int
  /-- When it was recorded. -/
  createdAt : Instant
  /-- The name of the main routine. -/
  mainName : String
  /-- The conversion had no error. -/
  success : Bool
  /-- The number of warnings. -/
  warnings : Int
  /-- The number of errors. -/
  errors : Int
  /-- The SHA-256 digest of the source, in base 16. -/
  sourceHash : String
  deriving DecidableEq, Repr

/-- Bytes in base 16. -/
def hexText (bytes : List UInt8) : String :=
  String.ofList (bytes.flatMap fun b =>
    [Nat.digitChar (b.toNat / 16), Nat.digitChar (b.toNat % 16)])

/-- The entry for the conversion of a source, before it is recorded. -/
def Entry.ofConversion (src : String) (c : Conversion) : Entry where
  id := 0
  createdAt := .zero
  mainName := c.mainName
  success := c.success
  warnings := c.warnings.length
  errors := c.errors.length
  sourceHash := hexText (Sha256.digest (Text.encode src.toList))

/-- A clock, given by the times that its readings show. -/
structure Clock where
  /-- The time at each reading, in nanoseconds since the start of 1970. -/
  nanos : Nat → Int
  /-- The number of readings so far. -/
  readings : Nat

namespace Clock

/-- A clock that starts at a time and advances by a fixed step from one reading to the next, both in
milliseconds. -/
def steady (start step : Int) : Clock := ⟨fun n => (start + step * n) * 1000000, 0⟩

/-- Reads the clock. -/
def tick (c : Clock) : Instant × Clock :=
  (.ofNanos (c.nanos c.readings), { c with readings := c.readings + 1 })

end Clock

end Pseudocode
