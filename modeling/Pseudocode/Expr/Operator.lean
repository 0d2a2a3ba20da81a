import Pseudocode.Pattern

/-!
# Operators

The spellings of the operators that are replaced in code.  The words `Y` and `O` are operators in
upper case only, so that `y` and `o` stay usable as names; `NO` and `MOD` may be written in any
letter case.
-/

namespace Pseudocode

namespace Expr

/-- The conjunction `Y`. -/
def conjunction : Pattern := letterPattern 'Y' "&&".toList

/-- The disjunction `O`. -/
def disjunction : Pattern := letterPattern 'O' "||".toList

/-- The negation `NO`, with the blanks that follow it. -/
def negation : Pattern := fun before s =>
  match Text.splitWholeKey? "no".toList s with
  | some (read, rest) =>
    if Text.atBoundary before read.head? then
      some (read.length + (rest.takeWhile Text.isBlank).length, "!".toList)
    else none
  | none => none

/-- The inequality `<>`. -/
def inequality : Pattern := textPattern "<>".toList "!=".toList

/-- The equality sign with `lead` before it and the given text after it, if no second sign
follows; a character that follows is part of the occurrence. -/
def equalitySign (lead : List Char) : List Char → Option (Nat × List Char)
  | [] => some (lead.length + 1, lead ++ "==".toList)
  | c :: _ => if c = '=' then none else some (lead.length + 2, lead ++ "==".toList ++ [c])

/-- A lone `=`: at the front of the text or after a character other than `!`, `<`, `>` and `=`.
The neighbours belong to the occurrence. -/
def equality : Pattern
  | none, '=' :: rest => equalitySign [] rest
  | _, c :: '=' :: rest => if c ∈ ['!', '<', '>', '='] then none else equalitySign [c] rest
  | _, _ => none

/-- The remainder `MOD`. -/
def remainder : Pattern := wordPattern "mod".toList "%".toList

/-- The power `^`. -/
def power : Pattern := textPattern "^".toList "**".toList

/-- Replaces the boolean constants, in literals too. -/
def booleans (s : List Char) : List Char :=
  replaceAll (wordPattern "falso".toList "false".toList)
    (replaceAll (wordPattern "verdadero".toList "true".toList) s)

end Expr

end Pseudocode
