import Pseudocode.Expr.Convert
import Pseudocode.Names
import Pseudocode.Scan.TopLevel
import Pseudocode.Statement.Target

/-!
# Dimensions

`Dimension v[10], m[3, 4]` becomes one allocation for each array.  A line with an item that is no
array is kept as a comment; the arrays before that item are declared all the same.
-/

namespace Pseudocode

namespace Statement

/-- An array to allocate. -/
structure ArrayShape where
  /-- The name of the array. -/
  name : List Char
  /-- Its converted sizes, outermost first. -/
  sizes : List (List Char)
  deriving DecidableEq, Repr

/-- Reads an item of a dimension; every size must be given. -/
def ArrayShape.ofText? (item : List Char) : Option ArrayShape :=
  match Element.ofText? item with
  | some element =>
    let sizes := Scan.splitTopLevel ',' element.index
    if sizes.any (·.isEmpty) then none else some ⟨element.array, sizes.map Expr.expression⟩
  | none => none

/-- The expression that allocates an array of the given sizes. -/
def allocation : List (List Char) → List Char
  | [] => []
  | [size] => "new Array(".toList ++ size ++ ")".toList
  | size :: sizes =>
    "Array.from(\x7b length: ".toList ++ size ++ " \x7d, () => ".toList ++ allocation sizes ++
      ")".toList

/-- The statement that allocates an array. -/
def ArrayShape.allocate (a : ArrayShape) (names : Names) : List Char × Names :=
  let (letWord, names) := names.introduce a.name
  (letWord ++ a.name ++ " = ".toList ++ allocation a.sizes ++ ";".toList, names)

/-- The statements for the items of a dimension, none if some item is no array. -/
def allocateAll : List (List Char) → Names → Option (List (List Char)) × Names
  | [], names => (some [], names)
  | item :: items, names =>
    match ArrayShape.ofText? item with
    | none => (none, names)
    | some a =>
      let (statement, names) := a.allocate names
      let (statements, names) := allocateAll items names
      (statements.map (statement :: ·), names)

/-- The items that a dimension lists. -/
def dimensionItems (line : List Char) : List (List Char) :=
  Scan.splitTopLevel ',' (Text.stripKey "dimension".toList line)

/-- Converts a dimension. -/
def dimension (line : List Char) (names : Names) : List Char × Names :=
  match allocateAll (dimensionItems line) names with
  | (some statements, names) => (Text.join " ".toList statements, names)
  | (none, names) => ("// ".toList ++ line, names)

end Statement

end Pseudocode
