import Pseudocode.Scan.Symbol

/-!
# Regions

Between two symbols, a scan stands in code or in a literal of one of the two kinds.

* `Region.after` : the region in which a scan stands after a symbol.
* `Region.holds` : whether a symbol read in a region belongs to a literal.
-/

namespace Pseudocode

namespace Scan

variable {α : Type} [Symbol α]

/-- Where a scan stands: in code, or in a literal that was opened by the given quote. -/
inductive Region
  | code
  | literal (q : Quote)
  deriving DecidableEq, Repr

/-- The region after a symbol of the given role. -/
def Region.after : Region → Role → Region
  | .code, .quote q => .literal q
  | .literal q, .quote p => if p = q then .code else .literal q
  | r, _ => r

/-- A symbol of the given role, read in the region, belongs to a literal; both of its quotes
do. -/
def Region.holds : Region → Role → Bool
  | .literal _, _ => true
  | .code, x => x.isQuote

/-- The region in which a scan of the text ends that starts in the given one. -/
def Region.afterAll (r : Region) (s : List α) : Region :=
  s.foldl (fun r c => r.after (role c)) r

end Scan

end Pseudocode
