import Pseudocode.Scan.Region

/-!
# Matching parentheses

Only parentheses count here, and none that lie in literals.

* `closeParen?` : cuts the text after an opening parenthesis at the one that closes it.
* `matchParen?` : the offset of the parenthesis that closes the one at a given offset.
-/

namespace Pseudocode

namespace Scan

variable {α : Type} [Symbol α]

/-- The number of parentheses that are open inside the outermost one after a symbol, if `depth`
are before it; none if the symbol closes the outermost one. -/
def parenDepth (r : Region) (depth : Nat) (x : Role) : Option Nat :=
  if r.holds x then some depth
  else match x, depth with
    | .opening .round, d => some (d + 1)
    | .closing .round, 0 => none
    | .closing .round, d + 1 => some d
    | _, d => some d

/-- Cuts a text at the parenthesis that closes an outermost one, inside which `depth` others are
open: what stands before it and what follows. -/
def closeParenFrom : Region → (depth : Nat) → List α → Option (List α × List α)
  | _, _, [] => none
  | r, depth, c :: cs =>
    match parenDepth r depth (role c) with
    | none => some ([], cs)
    | some d =>
      (closeParenFrom (r.after (role c)) d cs).map fun (inside, rest) => (c :: inside, rest)

/-- Cuts the text that follows an opening parenthesis at the parenthesis that closes it. -/
def closeParen? (s : List α) : Option (List α × List α) := closeParenFrom .code 0 s

/-- The two parts of a cut text and the closing parenthesis make up the text. -/
theorem length_of_closeParenFrom {r : Region} {depth : Nat} {s inside rest : List α}
    (h : closeParenFrom r depth s = some (inside, rest)) :
    inside.length + rest.length + 1 = s.length := by
  induction s generalizing r depth inside with
  | nil => simp [closeParenFrom] at h
  | cons c cs ih =>
    rw [closeParenFrom] at h
    split at h
    · simp only [Option.some.injEq, Prod.mk.injEq] at h
      obtain ⟨rfl, rfl⟩ := h
      simp
    · simp only [Option.map_eq_some_iff, Prod.exists, Prod.mk.injEq] at h
      obtain ⟨inner, tail, hc, rfl, rfl⟩ := h
      have := ih hc
      simp only [List.length_cons]
      omega

theorem length_of_closeParen? {s inside rest : List α}
    (h : closeParen? s = some (inside, rest)) : inside.length + rest.length + 1 = s.length :=
  length_of_closeParenFrom h

/-- The offset of the parenthesis that closes the one at the offset `start`; none if no opening
parenthesis stands there or nothing closes it.  Nothing stands at a negative offset. -/
def matchParen? (s : List α) (start : Int) : Option Nat :=
  if start < 0 then none
  else match s.drop start.toNat with
    | [] => none
    | c :: rest =>
      if role c = .opening .round then
        (closeParen? rest).map fun (inside, _) => start.toNat + 1 + inside.length
      else none

end Scan

end Pseudocode
