import Pseudocode.Diagnostic

/-!
# The record of a conversion

A conversion keeps three lists as it goes: the messages of its errors, those of its warnings, and
the diagnostics of both in the order in which they come up.

* `Diagnostics.warn`, `Diagnostics.fail` : add an entry.
* `Diagnostics.result` : the outcome of a conversion.
-/

namespace Pseudocode

/-- The outcome of converting a source. -/
structure Conversion where
  /-- There are no errors. -/
  success : Bool
  /-- The generated program, empty if the source has no start. -/
  text : String
  /-- The name of the main routine, empty if the source has no start. -/
  mainName : String
  /-- The messages of the errors. -/
  errors : List String
  /-- The messages of the warnings. -/
  warnings : List String
  /-- What is to be said about the source, in order. -/
  details : List Diagnostic
  deriving DecidableEq, Repr

/-- What a conversion has recorded so far. -/
structure Diagnostics where
  /-- The messages of the errors. -/
  errors : List String
  /-- The messages of the warnings. -/
  warnings : List String
  /-- Errors and warnings in the order in which they came up. -/
  details : List Diagnostic
  deriving DecidableEq, Repr

namespace Diagnostics

/-- Nothing is recorded. -/
def empty : Diagnostics := ⟨[], [], []⟩

/-- Records a warning. -/
def warn (d : Diagnostics) (n : Notice) : Diagnostics :=
  { d with
    warnings := d.warnings ++ [n.message]
    details := d.details ++ [⟨n.line, n.code, n.message, .warning, none⟩] }

/-- Records an error of the given class, with advice. -/
def fail (d : Diagnostics) (category : Category) (n : Notice) (advice : String) : Diagnostics :=
  { d with
    errors := d.errors ++ [n.message]
    details := d.details ++ [⟨n.line, n.code, n.message, category, advice⟩] }

/-- The recorded warnings. -/
def warningDetails (d : Diagnostics) : List Diagnostic := d.details.filter (!·.isError)

/-- The outcome of a conversion that wrote a text. -/
def result (d : Diagnostics) (text mainName : List Char) : Conversion :=
  ⟨d.errors.isEmpty, String.ofList text, String.ofList mainName, d.errors, d.warnings, d.details⟩

end Diagnostics

end Pseudocode
