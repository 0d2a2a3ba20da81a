import Pseudocode.Pattern
import Pseudocode.Text.LowerCase

/-!
# Intrinsic functions

The mathematical functions of pseudocode, in any letter case, become members of `Math`.  A call is
replaced where neither a point nor a word character stands before the name; the character before
it and the parenthesis after it belong to the occurrence.
-/

namespace Pseudocode

namespace Expr

/-- The intrinsic functions and the members of `Math` that compute them. -/
def intrinsics : List (List Char × List Char) :=
  [("raiz".toList, "Math.sqrt".toList),
   ("rc".toList, "Math.sqrt".toList),
   ("abs".toList, "Math.abs".toList),
   ("trunc".toList, "Math.trunc".toList),
   ("redon".toList, "Math.round".toList),
   ("ln".toList, "Math.log".toList),
   ("exp".toList, "Math.exp".toList),
   ("sen".toList, "Math.sin".toList),
   ("cos".toList, "Math.cos".toList),
   ("tan".toList, "Math.tan".toList)]

/-- The member of `Math` for an intrinsic as it is spelled; empty if its lower case is not in the
table, as happens for the long s. -/
def memberFor (spelled : List Char) : List Char :=
  (intrinsics.lookup (Text.lower spelled)).getD []

/-- The intrinsic at the front of a text whose name is followed by blanks and a parenthesis: the
name as it is spelled and the number of characters up to the parenthesis, included. -/
def splitCall? (s : List Char) : Option (List Char × Nat) :=
  intrinsics.findSome? fun (name, _) =>
    match Text.splitKey? name s with
    | some (read, rest) =>
      match Text.skipBlanks rest with
      | '(' :: _ => some (read, read.length + (rest.takeWhile Text.isBlank).length + 1)
      | _ => none
    | none => none

/-- The call of an intrinsic, with the character before it unless it stands at the front. -/
def intrinsicCall : Pattern := fun before s =>
  match before, splitCall? s with
  | none, some (name, n) => some (n, memberFor name ++ "(".toList)
  | _, _ =>
    match s with
    | [] => none
    | c :: cs =>
      if c = '.' || Text.isLooseWordChar c then none
      else (splitCall? cs).map fun (name, n) => (n + 1, c :: memberFor name ++ "(".toList)

end Expr

end Pseudocode
