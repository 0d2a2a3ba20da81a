/-!
# Declared names

The names that a routine has declared so far.  The first declaration of a name is told apart from
later ones, because only the first one is written as `let`.

* `Names.declare`, `Names.declareAll` : add names and tell which of them were new.
* `Names.sorted` : the names in the order of their code points.
-/

namespace Pseudocode

/-- A set of names, each of them once, in the order of their declaration. -/
structure Names where
  /-- The names, first declared first. -/
  toList : List (List Char)
  deriving DecidableEq, Repr

namespace Names

/-- No name is declared. -/
def empty : Names := ⟨[]⟩

/-- The name has been declared. -/
def contains (names : Names) (name : List Char) : Bool := name ∈ names.toList

/-- Declares a name, and tells whether it was new. -/
def declare (names : Names) (name : List Char) : Bool × Names :=
  if names.contains name then (false, names) else (true, ⟨names.toList ++ [name]⟩)

/-- Declares names one after the other; gives those that were new. -/
def declareAll (names : Names) : List (List Char) → List (List Char) × Names
  | [] => ([], names)
  | name :: rest =>
    let (isNew, names) := names.declare name
    let (fresh, names) := names.declareAll rest
    (if isNew then name :: fresh else fresh, names)

/-- Declares a name and gives the word that introduces its first use. -/
def introduce (names : Names) (name : List Char) : List Char × Names :=
  let (isNew, names) := names.declare name
  (if isNew then "let ".toList else [], names)

/-- The names in the order of their code points. -/
def sorted (names : Names) : List (List Char) :=
  names.toList.mergeSort fun a b => !(b.lex a (· < ·))

end Names

end Pseudocode
