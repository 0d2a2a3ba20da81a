import Pseudocode.Pass
import Pseudocode.Proofs.Written

/-!
# The body of a routine

A pass keeps one state and adds to it.  What it does to one line of a routine is told here as a
function of the names declared so far, of the open blocks and of the nesting depth, which gives the
code of the line and its notices: the text written before and the options of the conversion play no
part in it.  `Pass.feed_eq` and `Pass.closeBlocks_eq` show that passes do this.

* `Routine.feed` : converts one line.
* `Routine.closeBlocks` : closes the blocks that are still open.
* `Routine.close` : ends the routine.
-/

namespace Pseudocode

/-- The state in which the body of a routine is converted. -/
structure Routine where
  /-- The declared names and the open blocks. -/
  scope : Scope
  /-- The nesting depth of the next line of code. -/
  depth : Nat
  deriving DecidableEq, Repr

namespace Routine

/-- A routine at the given depth without names and blocks. -/
def start (depth : Nat) : Routine := ⟨.empty, depth⟩

/-- The routine with other names. -/
def withNames (r : Routine) (names : Names) : Routine := { r with scope := { r.scope with names } }

/-- The line of a statement; an empty statement leaves an empty line. -/
def statement (r : Routine) (code : List Char) : List Piece :=
  if code.isEmpty then [.blank] else [.line r.depth code]

/-- Opens a block with the given lines. -/
def openBlock (r : Routine) (kind : BlockKind) (l : SourceLine) (codes : List (List Char)) :
    List Piece × Routine :=
  (codes.map (.line r.depth), ⟨r.scope.push kind l.num, r.depth + 1⟩)

/-- What a terminator for blocks of the given kind has to say about the block it closes. -/
def closerNotices (l : SourceLine) (kind : BlockKind) : Option OpenBlock → List Notice
  | none => [l.notice .strayCloser]
  | some b => if b.kind = kind then [] else [l.notice (.wrongCloser b)]

/-- Closes the innermost block with the given line.  The depth drops even if no block or one of
another kind is open. -/
def closeBlock (r : Routine) (kind : BlockKind) (l : SourceLine) (code : List Char) :
    Written × Routine :=
  let (b, scope) := r.scope.pop
  (⟨[.line (r.depth - 1) code], closerNotices l kind b⟩, ⟨scope, r.depth - 1⟩)

/-- Starts the other branch of a conditional. -/
def otherwise (r : Routine) (l : SourceLine) : Written × Routine :=
  let stray := r.scope.top?.all (·.kind != .branch)
  (⟨[.line (r.depth - 1) "\x7d else \x7b".toList], if stray then [l.notice .strayElse] else []⟩,
    { r with depth := r.depth - 1 + 1 })

/-- Converts a line of the given kind. -/
def feedKind (r : Routine) (l : SourceLine) : LineKind → Written × Routine
  | .declaration =>
    let (code, names) := Statement.declaration l.code r.scope.names
    (.code (r.statement code), r.withNames names)
  | .dimension =>
    let (code, names) := Statement.dimension l.code r.scope.names
    (.code (r.statement code), r.withNames names)
  | .input =>
    let (pieces, names) := Statement.input l.code r.depth r.scope.names
    (⟨pieces, [l.notice .promptedInput]⟩, r.withNames names)
  | .output => (.code (r.statement (Statement.output l.code)), r)
  | .branch =>
    let (pieces, r) := r.openBlock .branch l [Header.branch l.code]
    (.code pieces, r)
  | .otherwise => r.otherwise l
  | .endBranch => r.closeBlock .branch l "\x7d".toList
  | .whileLoop =>
    let (pieces, r) := r.openBlock .whileLoop l [Header.whileLoop l.code]
    (.code pieces, r)
  | .endWhile => r.closeBlock .whileLoop l "\x7d".toList
  | .countedLoop =>
    match Header.countedLoop? l.code r.scope.names with
    | some code =>
      let (pieces, r) := r.openBlock .countedLoop l [code]
      (.code pieces, r)
    | none =>
      let (pieces, r) :=
        r.openBlock .countedLoop l [Header.unconvertedLoop l.code, "\x7b".toList]
      (⟨pieces, [l.notice .unconvertedLoop]⟩, r)
  | .endCounted => r.closeBlock .countedLoop l "\x7d".toList
  | .repeatLoop =>
    let (pieces, r) := r.openBlock .repeatLoop l ["do \x7b".toList]
    (.code pieces, r)
  | .untilLoop => r.closeBlock .repeatLoop l (Header.untilLoop l.code)
  | .assignment =>
    let (code, names) := Statement.assignment l.code r.scope.names
    (.code (r.statement code), r.withNames names)
  | .call => (.code (r.statement (Statement.call l.code)), r)

/-- Converts a line by its kind; a line of no known form is kept as a comment. -/
def convertLine (r : Routine) (l : SourceLine) : Written × Routine :=
  match l.kind? with
  | some kind => r.feedKind l kind
  | none => (⟨[.line r.depth ("// ".toList ++ l.text)], [l.notice .unrecognised]⟩, r)

/-- What is said about a line whatever its kind. -/
def literalNotices (l : SourceLine) : List Notice :=
  if Scan.unclosed l.code then [l.notice .openLiteral] else []

/-- Converts a line. -/
def feed (r : Routine) (l : SourceLine) : Written × Routine :=
  let (w, r) := r.convertLine l
  (⟨[], literalNotices l⟩ ++ w, r)

/-- Converts lines one after the other. -/
def feedAll (r : Routine) : List SourceLine → Written × Routine
  | [] => (.empty, r)
  | l :: ls =>
    let (w, r) := r.feed l
    let (v, r) := r.feedAll ls
    (w ++ v, r)

/-- The lines that lead from a depth down to the body of the routine. -/
def closersFrom : (depth : Nat) → List Piece
  | 0 => []
  | 1 => []
  | d + 2 => .line (d + 1) "\x7d".toList :: closersFrom (d + 1)

/-- The lines that close open blocks from a depth on, innermost first, and what is left to be
closed; no line is written at the depth of the body. -/
def closeAll : List OpenBlock → (depth : Nat) → List Piece
  | [], d => closersFrom d
  | _ :: bs, 0 => closeAll bs 0
  | _ :: bs, 1 => closeAll bs 1
  | b :: bs, d + 2 => .line (d + 1) (forcedCloser b.kind) :: closeAll bs (d + 1)

theorem closeAll_cons_of_le (b : OpenBlock) (bs : List OpenBlock) {depth : Nat} (h : depth ≤ 1) :
    closeAll (b :: bs) depth = closeAll bs depth := by
  obtain rfl | rfl : depth = 0 ∨ depth = 1 := by omega
  · rw [closeAll]
  · rw [closeAll]

/-- Closes the blocks that are still open and reports each of them. -/
def closeBlocks (r : Routine) : Written × Routine :=
  let (blocks, scope) := r.scope.drain
  (⟨closeAll blocks r.depth, blocks.map .ofUnclosed⟩, ⟨scope, min r.depth 1⟩)

/-- Ends the routine: closes its blocks and its body. -/
def close (r : Routine) : Written × Routine :=
  let (w, r) := r.closeBlocks
  (w ++ .code [.line 0 "\x7d".toList, .blank], { r with depth := 0 })

end Routine

end Pseudocode
