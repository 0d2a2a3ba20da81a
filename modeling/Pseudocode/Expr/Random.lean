import Pseudocode.Scan.Paren
import Pseudocode.Text.Word

/-!
# Random numbers

`azar(n)` becomes `Math.floor(Math.random() * (n))`.  The argument may hold parentheses, literals
and further calls; a call without its closing parenthesis leaves the rest of the text as it is.
-/

namespace Pseudocode

namespace Expr

/-- Reads a call of `azar` up to its parenthesis off the front of a text: what follows it. -/
def afterAzar? (before : Option Char) (s : List Char) : Option (List Char) :=
  match Text.splitKey? "azar".toList s with
  | some (read, rest) =>
    match Text.atBoundary before read.head?, Text.skipBlanks rest with
    | true, '(' :: argument => some argument
    | _, _ => none
  | none => none

/-- The first call of `azar`: what stands before it, and what follows its parenthesis. -/
def breakAzar? : (before : Option Char) → List Char → Option (List Char × List Char)
  | _, [] => none
  | before, c :: cs =>
    match afterAzar? before (c :: cs) with
    | some argument => some ([], argument)
    | none => (breakAzar? (some c) cs).map fun (front, argument) => (c :: front, argument)

theorem length_of_afterAzar? {before : Option Char} {s argument : List Char}
    (h : afterAzar? before s = some argument) : argument.length < s.length := by
  unfold afterAzar? at h
  split at h
  · rename_i read rest hs
    split at h
    · rename_i _ _ _ arg hb
      simp only [Option.some.injEq] at h
      subst h
      have h₁ := (Text.length_of_splitKey? hs).2
      have h₂ : (Text.skipBlanks rest).length ≤ rest.length :=
        (List.dropWhile_sublist _).length_le
      rw [hb] at h₂
      simp only [List.length_cons] at h₂
      omega
    · simp at h
  · simp at h

theorem length_of_breakAzar? {before : Option Char} {s front argument : List Char}
    (h : breakAzar? before s = some (front, argument)) : argument.length < s.length := by
  induction s generalizing before front with
  | nil => simp [breakAzar?] at h
  | cons c cs ih =>
    rw [breakAzar?] at h
    split at h
    · rename_i ha
      simp only [Option.some.injEq, Prod.mk.injEq] at h
      obtain ⟨_, rfl⟩ := h
      exact length_of_afterAzar? ha
    · simp only [Option.map_eq_some_iff, Prod.exists, Prod.mk.injEq] at h
      obtain ⟨front', argument', hc, _, rfl⟩ := h
      exact Nat.lt_succ_of_lt (ih hc)

/-- Replaces every call of `azar`, in literals too, up to the first one that is not closed. -/
def random (s : List Char) : List Char :=
  match h : breakAzar? none s with
  | none => s
  | some (front, argument) =>
    match hc : Scan.closeParen? argument with
    | none => s
    | some (inside, rest) =>
      have := length_of_breakAzar? h
      have := Scan.length_of_closeParen? hc
      have := Text.length_trim_le inside
      front ++ "Math.floor(Math.random() * (".toList ++ random (Text.trim inside) ++
        "))".toList ++ random rest
termination_by s.length
decreasing_by all_goals omega

end Expr

end Pseudocode
