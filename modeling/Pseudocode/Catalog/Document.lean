import Pseudocode.Catalog.Basic
import Pseudocode.Json.Basic

/-!
# Catalog documents

A catalog may be read from a document with a list of exercises.  Scalars that are no text are taken
as they are written, a missing field or `null` is empty, a `null` in a list is left out, and no
field is given twice.

* `Catalog.documentExercises?` : the exercises that a document lists.
-/

namespace Pseudocode

namespace Catalog

/-- The field of the given name, `null` if it is missing; none if it is given twice. -/
def field? (key : String) (fields : List (List Char × Json)) : Option Json :=
  match fields.filter (·.1 == key.toList) with
  | [] => some .null
  | [(_, value)] => some value
  | _ => none

/-- The text of a scalar; none for a list or an object. -/
def scalar? : Json → Option String
  | .null => some ""
  | .bool b => some (if b then "true" else "false")
  | .number text => some (String.ofList text)
  | .string g => some (String.ofList (Text.lossy g))
  | _ => none

/-- The value is `null`. -/
def isNull : Json → Bool
  | .null => true
  | _ => false

/-- The items of a list other than `null`; none for anything but a list or `null`. -/
def items? : Json → Option (List Json)
  | .null => some []
  | .array items => some (items.filter (!isNull ·))
  | _ => none

/-- The texts in a list. -/
def scalars? (j : Json) : Option (List String) := do
  let items ← items? j
  items.mapM scalar?

/-- The exercise that an object describes. -/
def exercise? : Json → Option Exercise
  | .object fields => do
    let text (key : String) := (field? key fields).bind scalar?
    let list (key : String) := (field? key fields).bind scalars?
    return ⟨← text "id", ← text "title", ← text "difficulty", ← text "category",
      ← text "description", ← list "instructions", ← list "hints", ← text "expectedOutput",
      ← text "solution"⟩
  | _ => none

/-- The exercises that a document lists; none if it has another form. -/
def documentExercises? : Json → Option (List Exercise)
  | .null => some []
  | .object fields => do
    let items ← (field? "exercises" fields).bind items?
    items.mapM exercise?
  | _ => none

end Catalog

end Pseudocode
