import Pseudocode.Text.Word

/-!
# Replacing patterns

A replacement looks for a pattern from the left and replaces each occurrence; the search goes on
after the occurrence, so occurrences never overlap and replacements are not searched again.

* `replaceAll` : replaces every occurrence of a pattern.
* `wordPattern` : a whole word in any letter case.
-/

namespace Pseudocode

/-- A pattern looks at the character before a place, if any, and at the text from there on.  For an
occurrence it gives the number of characters to replace, at least one, and what replaces them. -/
abbrev Pattern := Option Char → List Char → Option (Nat × List Char)

/-- Replaces a pattern from a place on: `before` is the character before it, and the first `skip`
characters belong to an occurrence that has been replaced already. -/
def replaceFrom (p : Pattern) : (before : Option Char) → (skip : Nat) → List Char → List Char
  | _, _, [] => []
  | _, skip + 1, c :: cs => replaceFrom p (some c) skip cs
  | before, 0, c :: cs =>
    match p before (c :: cs) with
    | some (n, replacement) => replacement ++ replaceFrom p (some c) (n - 1) cs
    | none => c :: replaceFrom p (some c) 0 cs

/-- Replaces every occurrence of the pattern. -/
def replaceAll (p : Pattern) (s : List Char) : List Char := replaceFrom p none 0 s

/-- A fixed text, exactly as it is spelled. -/
def textPattern (text replacement : List Char) : Pattern := fun _ s =>
  if text.isPrefixOf s then some (text.length, replacement) else none

/-- A whole word in any letter case, given in lower case. -/
def wordPattern (word replacement : List Char) : Pattern := fun before s =>
  match Text.splitWholeKey? word s with
  | some (read, _) =>
    if Text.atBoundary before read.head? then some (read.length, replacement) else none
  | none => none

/-- A single capital letter that is a whole word. -/
def letterPattern (letter : Char) (replacement : List Char) : Pattern := fun before s =>
  match s with
  | [] => none
  | c :: cs =>
    if c = letter && Text.atBoundary before (some c) && Text.atBoundary (some c) cs.head? then
      some (1, replacement)
    else none

end Pseudocode
