import Pseudocode.Scan.Region
import Pseudocode.Text.Space

/-!
# The top level of a text

A symbol stands at the top level if it lies outside all literals and the brackets before it, and
itself, balance.  All shapes of brackets count alike, and a surplus of closing brackets leaves the
top level too.

* `topLevelOffsets` : where the symbols of a class stand at the top level.
* `cutTopLevel`, `splitTopLevel` : the pieces of a text between separators at the top level.
* `breakCode?`, `indexCode?` : the first place in code where a given text starts.
-/

namespace Pseudocode

namespace Scan

variable {α : Type} [Symbol α]

/-- The state of a scan that counts brackets. -/
structure Level where
  /-- The region before the next symbol. -/
  region : Region
  /-- The number of open brackets, negative after a surplus of closing ones. -/
  depth : Int
  deriving DecidableEq, Repr

namespace Level

/-- The state at the start of a text. -/
def start : Level := ⟨.code, 0⟩

/-- The state after a symbol; brackets in literals do not count. -/
def after (l : Level) (x : Role) : Level :=
  ⟨l.region.after x, if l.region.holds x then l.depth else l.depth + x.depthChange⟩

/-- A symbol read in this state stands at the top level. -/
def atTop (l : Level) (x : Role) : Bool := !l.region.holds x && (l.after x).depth == 0

end Level

/-- The offsets of the symbols that satisfy `p` at the top level, where the next symbol has the
offset `pos` and the state is `l`. -/
def offsetsFrom (p : α → Bool) : Level → Nat → List α → List Nat
  | _, _, [] => []
  | l, pos, c :: cs =>
    if l.atTop (role c) && p c then pos :: offsetsFrom p (l.after (role c)) (pos + 1) cs
    else offsetsFrom p (l.after (role c)) (pos + 1) cs

/-- The offsets of the symbols that satisfy `p` at the top level. -/
def topLevelOffsets (p : α → Bool) (s : List α) : List Nat := offsetsFrom p .start 0 s

/-- The pieces between separators at the top level, from the state `l` on; `held` is the piece that
is being read, last symbol first. -/
def cutFrom [DecidableEq α] (sep : α) : Level → (held : List α) → List α → List (List α)
  | _, held, [] => [held.reverse]
  | l, held, c :: cs =>
    if l.atTop (role c) && c = sep then held.reverse :: cutFrom sep (l.after (role c)) [] cs
    else cutFrom sep (l.after (role c)) (c :: held) cs

/-- The pieces of a text between the separators at its top level. -/
def cutTopLevel [DecidableEq α] (sep : α) (s : List α) : List (List α) := cutFrom sep .start [] s

/-- The trimmed pieces of a text between the separators at its top level; empty pieces are kept. -/
def splitTopLevel (sep : Char) (s : List Char) : List (List Char) :=
  (cutTopLevel sep s).map Text.trim

/-- Cuts a text, scanned from the given region, where `sub` first starts in code. -/
def breakCodeFrom [BEq α] (sub : List α) : Region → List α → Option (List α × List α)
  | _, [] => none
  | r, c :: cs =>
    if !r.holds (role c) && sub.isPrefixOf (c :: cs) then some ([], c :: cs)
    else (breakCodeFrom sub (r.after (role c)) cs).map fun (front, rest) => (c :: front, rest)

/-- Cuts a text where `sub` first starts in code: what stands before, and the text from there on.
The empty text starts nowhere. -/
def breakCode? [BEq α] (sub s : List α) : Option (List α × List α) :=
  if sub.isEmpty then none else breakCodeFrom sub .code s

/-- The offset at which `sub` first starts in code. -/
def indexCode? [BEq α] (sub s : List α) : Option Nat :=
  (breakCode? sub s).map fun (front, _) => front.length

end Scan

end Pseudocode
