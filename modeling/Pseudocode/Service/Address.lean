import Pseudocode.Text.Decimal
import Pseudocode.Text.Space
import Pseudocode.Text.Utf8

/-!
# Addresses of requests

The target of a request is a path and a query, in which bytes may be percent-encoded.

* `Path.routed` : the path by which a request is routed.
* `Query.first` : the first value of a key in a query.
* `ListenAddress.error?` : what is wrong with an address to listen on.
-/

namespace Pseudocode

/-- The byte of an ASCII character. -/
def asciiByte (c : Char) : UInt8 := UInt8.ofNat c.toNat

/-- The value of a digit in base 16. -/
def hexDigit? (b : UInt8) : Option Nat :=
  let n := b.toNat
  if 48 ≤ n && n ≤ 57 then some (n - 48)
  else if 97 ≤ n && n ≤ 102 then some (n - 87)
  else if 65 ≤ n && n ≤ 70 then some (n - 55)
  else none

/-- Replaces percent-encoded bytes, and with `plus` a plus sign by a blank; none if a percent sign
is not followed by two digits. -/
def percentDecode? (plus : Bool) : List UInt8 → Option (List UInt8)
  | [] => some []
  | b :: rest =>
    if b = asciiByte '%' then
      match rest with
      | x :: y :: rest => do
        let high ← hexDigit? x
        let low ← hexDigit? y
        let decoded ← percentDecode? plus rest
        return UInt8.ofNat (16 * high + low) :: decoded
      | _ => none
    else do
      let decoded ← percentDecode? plus rest
      return (if plus && b = asciiByte '+' then asciiByte ' ' else b) :: decoded

namespace Path

/-- The byte stands in a path as it is. -/
def isPlain (b : UInt8) : Bool :=
  let c := Char.ofNat b.toNat
  b.toNat < 128 && (c.isAlphanum || c ∈ "-_.~$&+,/:;=@".toList)

/-- A digit in base 16, in upper case. -/
def upperHex (n : Nat) : UInt8 := UInt8.ofNat (if n < 10 then 48 + n else 55 + n)

/-- The canonical encoding of a path. -/
def encode (path : List UInt8) : List UInt8 :=
  path.flatMap fun b =>
    if isPlain b then [b]
    else [asciiByte '%', upperHex (b.toNat / 16), upperHex (b.toNat % 16)]

/-- The path by which a request is routed: decoded if it is written in its canonical encoding, and
as it is written otherwise. -/
def routed (path : List UInt8) : List UInt8 :=
  match percentDecode? false path with
  | some decoded => if encode decoded = path then decoded else path
  | none => path

end Path

/-- The bytes before and after the first occurrence of a byte; all of them come before if it does
not occur. -/
def cutAt (b : UInt8) (bytes : List UInt8) : List UInt8 × List UInt8 :=
  (bytes.takeWhile (· != b), (bytes.dropWhile (· != b)).drop 1)

namespace Query

/-- The pieces of bytes between the occurrences of a byte. -/
def splitOn (sep : UInt8) : List UInt8 → List (List UInt8)
  | [] => [[]]
  | b :: rest =>
    if b = sep then [] :: splitOn sep rest
    else match splitOn sep rest with
      | [] => [[b]]
      | piece :: pieces => (b :: piece) :: pieces

/-- A pair of a query; none if it is empty, holds a semicolon or cannot be decoded. -/
def pair? (piece : List UInt8) : Option (List UInt8 × List UInt8) :=
  if piece.isEmpty || asciiByte ';' ∈ piece then none
  else do
    let (key, value) := cutAt (asciiByte '=') piece
    return (← percentDecode? true key, ← percentDecode? true value)

/-- The first value of a key, empty if there is none. -/
def first (query : List UInt8) (key : String) : List UInt8 :=
  let pairs := (splitOn (asciiByte '&') query).filterMap pair?
  (pairs.lookup (Text.encode key.toList)).getD []

end Query

namespace ListenAddress

/-- What is wrong with an address of a host and a service. -/
inductive Fault
  | missingService
  | tooManyColons
  | missingBracket
  | strayOpening
  | strayClosing
  | invalidService (service : String)
  | unknownService (service : String)
  deriving DecidableEq, Repr

/-- The wording of the fault of an address. -/
def Fault.message (addr : String) : Fault → String
  | missingService => "address " ++ addr ++ ": missing port in address"
  | tooManyColons => "address " ++ addr ++ ": too many colons in address"
  | missingBracket => "address " ++ addr ++ ": missing ']' in address"
  | strayOpening => "address " ++ addr ++ ": unexpected '[' in address"
  | strayClosing => "address " ++ addr ++ ": unexpected ']' in address"
  | invalidService service => "address " ++ service ++ ": invalid port"
  | unknownService service => "lookup tcp/" ++ service ++ ": unknown port"

/-- The text before and after the last colon; none if there is no colon. -/
def splitLastColon? (addr : List Char) : Option (List Char × List Char) :=
  let service := (addr.reverse.takeWhile (· != ':')).reverse
  if ':' ∈ addr then some (addr.take (addr.length - service.length - 1), service) else none

/-- The host, without its brackets, and the service.  A host between square brackets may hold
colons. -/
def split (addr : List Char) : Except Fault (List Char × List Char) :=
  match splitLastColon? addr with
  | none => .error .missingService
  | some (host, service) =>
    match addr with
    | '[' :: rest =>
      let inner := rest.takeWhile (· != ']')
      let after := (rest.dropWhile (· != ']')).drop 1
      if ']' ∉ rest then .error .missingBracket
      else if after.head? ≠ some ':' then .error .missingService
      else if after.length ≠ service.length + 1 then .error .tooManyColons
      else if '[' ∈ rest then .error .strayOpening
      else if ']' ∈ service then .error .strayClosing
      else .ok (inner, service)
    | _ =>
      if ':' ∈ host then .error .tooManyColons
      else if '[' ∈ addr then .error .strayOpening
      else if ']' ∈ addr then .error .strayClosing
      else .ok (host, service)

/-- What is wrong with a service, if anything is.  A service without digits is left open. -/
def serviceError? (service : List Char) : Option Fault :=
  match Text.integer service with
  | .ok n => if 0 ≤ n && n ≤ 65535 then none else some (.invalidService (String.ofList service))
  | .error .outOfRange => some (.invalidService (String.ofList service))
  | .error .malformed =>
    if [[], ['+'], ['-']].contains service then none
    else some (.unknownService (String.ofList service))

/-- What is wrong with an address, if anything is. -/
def error? (addr : String) : Option Fault :=
  match split addr.toList with
  | .error fault => some fault
  | .ok (_, service) => serviceError? service

end ListenAddress

end Pseudocode
