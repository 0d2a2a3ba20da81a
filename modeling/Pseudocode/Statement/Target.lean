import Pseudocode.Text.Word

/-!
# Targets

The shapes of text that name something to write to or to call: an element `name[index]` of an
array, and a call `name(arguments)`.
-/

namespace Pseudocode

namespace Statement

/-- What stands between the first and the last character of a text, if these are the given ones and
no line feed stands between them. -/
def between? (first last : Char) : List Char → Option (List Char)
  | [] => none
  | c :: cs =>
    if c = first && cs.getLast? = some last && '\n' ∉ cs.dropLast then some cs.dropLast else none

/-- An element of an array as it is written. -/
structure Element where
  /-- The name of the array. -/
  array : List Char
  /-- The text between the square brackets, which is not empty. -/
  index : List Char
  deriving DecidableEq, Repr

/-- Reads a text that is an identifier followed by an index in square brackets. -/
def Element.ofText? (s : List Char) : Option Element :=
  let (name, rest) := Text.splitIdentifier s
  if name.isEmpty then none
  else match between? '[' ']' (Text.skipBlanks rest) with
    | some (c :: index) => some ⟨name, c :: index⟩
    | _ => none

/-- The text is an identifier followed by arguments in parentheses. -/
def isCall (s : List Char) : Bool :=
  let (name, rest) := Text.splitIdentifier s
  !name.isEmpty && (between? '(' ')' (Text.skipBlanks rest)).isSome

end Statement

end Pseudocode
