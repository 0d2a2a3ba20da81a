import Pseudocode.Scan.Region

/-!
# Segments

A text falls into segments: runs of code, which hold no quote, and literals, each with its quotes.
Only the last literal may lack its closing quote.

* `segments` : the segments of a text, in order.
* `segmentsFrom_code_quote` and the three beside it : segments, symbol by symbol.
-/

namespace Pseudocode

namespace Scan

variable {α : Type} [Symbol α]

/-- A maximal run of code, or one literal. -/
inductive Segment (α : Type)
  | code (run : List α)
  | literal (text : List α)
  deriving DecidableEq, Repr

/-- The symbols of a segment. -/
def Segment.symbols : Segment α → List α
  | .code run => run
  | .literal text => text

/-- The segment with its code mapped. -/
def Segment.mapCode (f : List α → List α) : Segment α → List α
  | .code run => f run
  | .literal text => text

/-- Puts a run of code, given last symbol first, in front of other segments; an empty run is no
segment. -/
def consRun (run : List α) (rest : List (Segment α)) : List (Segment α) :=
  if run.isEmpty then rest else .code run.reverse :: rest

/-- The segments of a text that is scanned from the given region; `held` are the symbols of the
segment that is being read, last one first. -/
def segmentsFrom : Region → (held : List α) → List α → List (Segment α)
  | .code, held, [] => consRun held []
  | .literal _, held, [] => [.literal held.reverse]
  | .code, held, c :: cs =>
    match role c with
    | .quote q => consRun held (segmentsFrom (.literal q) [c] cs)
    | _ => segmentsFrom .code (c :: held) cs
  | .literal q, held, c :: cs =>
    if role c = .quote q then .literal (c :: held).reverse :: segmentsFrom .code [] cs
    else segmentsFrom (.literal q) (c :: held) cs

/-- The segments of a text, in order. -/
def segments (s : List α) : List (Segment α) := segmentsFrom .code [] s

/-- The text starts with a symbol of code. -/
def startsInCode : List α → Bool
  | [] => false
  | c :: _ => !(role c).isQuote

/-! ### Quotes -/

theorem Role.isQuote_iff {x : Role} : x.isQuote = true ↔ ∃ q, x = .quote q := by
  cases x <;> simp [Role.isQuote]

theorem Region.after_of_isQuote_eq_false {x : Role} (h : x.isQuote = false) (r : Region) :
    r.after x = r := by
  cases x with
  | quote q => cases h
  | _ => cases r <;> rfl

theorem Region.literal_after_of_ne {x : Role} {q : Quote} (h : x ≠ .quote q) :
    (Region.literal q).after x = .literal q := by
  cases x with
  | quote p => exact if_neg fun hp => h (by rw [hp])
  | _ => rfl

/-! ### Segments branch by branch -/

variable {held cs : List α} {c : α} {q : Quote}

theorem segmentsFrom_code_quote (h : role c = .quote q) :
    segmentsFrom .code held (c :: cs) = consRun held (segmentsFrom (.literal q) [c] cs) := by
  rw [segmentsFrom, h]

theorem segmentsFrom_code_plain (h : (role c).isQuote = false) :
    segmentsFrom .code held (c :: cs) = segmentsFrom .code (c :: held) cs := by
  rw [segmentsFrom]
  split
  · rename_i hq
    rw [hq] at h
    cases h
  · rfl

theorem segmentsFrom_literal_close (h : role c = .quote q) :
    segmentsFrom (.literal q) held (c :: cs) =
      .literal (c :: held).reverse :: segmentsFrom .code [] cs := by
  rw [segmentsFrom, if_pos h]

theorem segmentsFrom_literal_inner (h : role c ≠ .quote q) :
    segmentsFrom (.literal q) held (c :: cs) = segmentsFrom (.literal q) (c :: held) cs := by
  rw [segmentsFrom, if_neg h]

omit [Symbol α] in
theorem flatMap_consRun {β : Type} (g : Segment α → List β) (hg : g (.code []) = [])
    (run : List α) (rest : List (Segment α)) :
    (consRun run rest).flatMap g = g (.code run.reverse) ++ rest.flatMap g := by
  cases run with
  | nil => simp [consRun, hg]
  | cons c run => simp [consRun]

end Scan

end Pseudocode
