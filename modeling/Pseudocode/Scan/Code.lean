import Pseudocode.Scan.Flags

/-!
# The code of a text

What is done to the code of a text leaves its literals alone.  A scan holds the symbols that it has
read since it last went from code into a literal or back, and lets go of them when it does so again.

* `mapCode` : maps the code of a text and copies its literals.
-/

namespace Pseudocode

namespace Scan

variable {α : Type} [Symbol α]

/-- What becomes of the symbols that a scan holds, last one first: literals are copied and code is
mapped. -/
def released (f : List α → List α) (inLiteral : Bool) (held : List α) : List α :=
  if inLiteral then held.reverse else f held.reverse

/-- Maps the code of the text that is left; `inLiteral` says where the symbols that are held come
from. -/
def mapCodeFrom (f : List α → List α) (flags : Flags) (inLiteral : Bool) (held : List α) :
    List α → List α
  | [] => released f inLiteral held
  | c :: cs =>
    let flags := flags.next (role c)
    if flags.inLiteral != inLiteral then
      released f inLiteral held ++ mapCodeFrom f flags flags.inLiteral [c] cs
    else mapCodeFrom f flags inLiteral (c :: held) cs

/-- Maps each run of code and copies the literals.  A text that does not start in code has an
empty run at its front, which is mapped as well. -/
def mapCode (f : List α → List α) (s : List α) : List α := mapCodeFrom f .start false [] s

end Scan

end Pseudocode
