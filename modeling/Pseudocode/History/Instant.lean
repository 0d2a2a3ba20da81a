/-!
# Instants

An instant is a number of milliseconds since the start of 1970, and is written as a date and a time
of day of the proleptic Gregorian calendar in UTC.

* `Instant.text` : an instant as it is written.
* `Instant.isExpressible` : the year of the instant has four digits.
-/

namespace Pseudocode

/-- A number of milliseconds since the start of 1970. -/
structure Instant where
  /-- The milliseconds, negative before that time. -/
  millis : Int
  deriving DecidableEq, Repr

/-- A date of the proleptic Gregorian calendar. -/
structure Date where
  /-- The year, where the year before 1 is 0. -/
  year : Int
  /-- The month, from 1 to 12. -/
  month : Nat
  /-- The day, from 1 to 31. -/
  day : Nat
  deriving DecidableEq, Repr

/-- The date that lies a number of days after the first of January 1970.  Days are counted from the
first of March of the year 0, so that a leap day ends its year. -/
def Date.ofDays (days : Int) : Date :=
  let n := days + 719468
  let era := n / 146097
  let dayOfEra := (n % 146097).toNat
  let yearOfEra :=
    (dayOfEra - dayOfEra / 1460 + dayOfEra / 36524 - dayOfEra / 146096) / 365
  let dayOfYear := dayOfEra - (365 * yearOfEra + yearOfEra / 4 - yearOfEra / 100)
  let shifted := (5 * dayOfYear + 2) / 153
  let day := dayOfYear - (153 * shifted + 2) / 5 + 1
  let month := if shifted < 10 then shifted + 3 else shifted - 9
  let year := era * 400 + yearOfEra
  ⟨if month ≤ 2 then year + 1 else year, month, day⟩

namespace Instant

/-- A number with at least the given number of digits. -/
def padded (width n : Nat) : List Char :=
  let digits := Nat.toDigits 10 n
  List.replicate (width - digits.length) '0' ++ digits

/-- A year with its sign and at least four digits. -/
def yearText (year : Int) : List Char :=
  if year < 0 then '-' :: padded 4 year.natAbs else padded 4 year.natAbs

/-- The fraction of a second without the zeros that end it, nothing if it is zero. -/
def fractionText (millis : Nat) : List Char :=
  if millis = 0 then []
  else '.' :: ((padded 3 millis).reverse.dropWhile (· == '0')).reverse

/-- The date on which the instant falls. -/
def date (t : Instant) : Date := Date.ofDays (t.millis / 86400000)

/-- The instant as a date and a time of day in UTC. -/
def text (t : Instant) : List Char :=
  let d := t.date
  let ms := (t.millis % 86400000).toNat
  yearText d.year ++ '-' :: padded 2 d.month ++ '-' :: padded 2 d.day ++
    'T' :: padded 2 (ms / 3600000) ++ ':' :: padded 2 (ms / 60000 % 60) ++
    ':' :: padded 2 (ms / 1000 % 60) ++ fractionText (ms % 1000) ++ ['Z']

/-- The year of the instant has four digits, as the format of answers demands. -/
def isExpressible (t : Instant) : Bool := 0 ≤ t.date.year && t.date.year ≤ 9999

/-- The instant of a number of nanoseconds since the start of 1970; a started millisecond does not
count. -/
def ofNanos (nanos : Int) : Instant := ⟨nanos / 1000000⟩

/-- The start of the year 1, which stands for no time at all. -/
def zero : Instant := ⟨-62135596800000⟩

end Instant

end Pseudocode
