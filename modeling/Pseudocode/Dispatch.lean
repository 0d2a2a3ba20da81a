import Pseudocode.Diagnostics
import Pseudocode.Header.Counted
import Pseudocode.Layout
import Pseudocode.LineKind
import Pseudocode.Statement.Declaration
import Pseudocode.Statement.Dimension
import Pseudocode.Statement.Input

/-!
# Converting a line

A line is converted by its kind, at the nesting depth of the code written so far.  It can declare
names, open and close blocks, and add to the record of the conversion.

* `LineContext.blockProblem` : records a fault of nesting, as the options say.
* `LineContext.convertKind` : converts a line of a kind.
* `LineContext.convertLine` : converts a line.
-/

namespace Pseudocode

/-- What can be chosen for a conversion. -/
structure Options where
  /-- Faults of nesting are errors and not warnings. -/
  strict : Bool
  deriving DecidableEq, Repr

/-- What a line is converted to. -/
structure LineResult where
  /-- The text, indented and with its line feeds. -/
  code : List Char
  /-- The nesting depth of the next line of code. -/
  depth : Nat
  deriving DecidableEq, Repr

/-- What the lines of a conversion share. -/
structure LineContext where
  /-- The declared names and the open blocks. -/
  scope : Scope
  /-- The record of the conversion. -/
  diag : Diagnostics
  /-- The options of the conversion. -/
  opts : Options
  deriving DecidableEq, Repr

/-- A notice about a source line. -/
def SourceLine.notice (l : SourceLine) (cause : Cause) : Notice :=
  ⟨l.num, String.ofList l.text, cause⟩

namespace LineResult

/-- A line of code; the next one has the given depth. -/
def line (depth : Nat) (code : List Char) (next : Nat) : LineResult :=
  ⟨(Piece.line depth code).text, next⟩

/-- The line of a statement; an empty statement leaves an empty line. -/
def statement (code : List Char) (depth : Nat) : LineResult :=
  if code.isEmpty then ⟨['\n'], depth⟩ else line depth code depth

end LineResult

namespace LineContext

/-- Records a warning. -/
def warn (cx : LineContext) (n : Notice) : LineContext := { cx with diag := cx.diag.warn n }

/-- Records a fault of nesting: an error in a strict conversion, a warning in a lenient one. -/
def blockProblem (cx : LineContext) (n : Notice) : LineContext :=
  { cx with
    diag := if cx.opts.strict then cx.diag.fail .syntactic n nestingAdvice else cx.diag.warn n }

/-- The context with other names. -/
def withNames (cx : LineContext) (names : Names) : LineContext :=
  { cx with scope := { cx.scope with names } }

/-- Opens a block with the given code. -/
def openBlock (cx : LineContext) (kind : BlockKind) (l : SourceLine) (code : List Char)
    (depth : Nat) : LineResult × LineContext :=
  (.line depth code (depth + 1), { cx with scope := cx.scope.push kind l.num })

/-- Closes the innermost block with the given code.  The depth drops even if no block or one of
another kind is open. -/
def closeBlock (cx : LineContext) (kind : BlockKind) (l : SourceLine) (code : List Char)
    (depth : Nat) : LineResult × LineContext :=
  let (b, scope) := cx.scope.pop
  let popped := { cx with scope }
  let cx := match b with
    | none => popped.blockProblem (l.notice .strayCloser)
    | some b => if b.kind = kind then popped else popped.blockProblem (l.notice (.wrongCloser b))
  (.line (depth - 1) code (depth - 1), cx)

/-- Starts the other branch of a conditional. -/
def otherwise (cx : LineContext) (l : SourceLine) (depth : Nat) : LineResult × LineContext :=
  let stray := cx.scope.top?.all (·.kind != .branch)
  (.line (depth - 1) "\x7d else \x7b".toList (depth - 1 + 1),
    if stray then cx.blockProblem (l.notice .strayElse) else cx)

/-- Converts a line of the given kind. -/
def convertKind (cx : LineContext) (l : SourceLine) (depth : Nat) :
    LineKind → LineResult × LineContext
  | .declaration =>
    let (code, names) := Statement.declaration l.code cx.scope.names
    (.statement code depth, cx.withNames names)
  | .dimension =>
    let (code, names) := Statement.dimension l.code cx.scope.names
    (.statement code depth, cx.withNames names)
  | .input =>
    let cx := cx.warn (l.notice .promptedInput)
    let (pieces, names) := Statement.input l.code depth cx.scope.names
    (⟨render pieces, depth⟩, cx.withNames names)
  | .output => (.statement (Statement.output l.code) depth, cx)
  | .branch => cx.openBlock .branch l (Header.branch l.code) depth
  | .otherwise => cx.otherwise l depth
  | .endBranch => cx.closeBlock .branch l "\x7d".toList depth
  | .whileLoop => cx.openBlock .whileLoop l (Header.whileLoop l.code) depth
  | .endWhile => cx.closeBlock .whileLoop l "\x7d".toList depth
  | .countedLoop =>
    match Header.countedLoop? l.code cx.scope.names with
    | some code => cx.openBlock .countedLoop l code depth
    | none =>
      -- a bare block keeps the brace of the terminator balanced
      let code := Header.unconvertedLoop l.code ++ '\n' :: indent depth ++ "\x7b".toList
      (cx.warn (l.notice .unconvertedLoop)).openBlock .countedLoop l code depth
  | .endCounted => cx.closeBlock .countedLoop l "\x7d".toList depth
  | .repeatLoop => cx.openBlock .repeatLoop l "do \x7b".toList depth
  | .untilLoop => cx.closeBlock .repeatLoop l (Header.untilLoop l.code) depth
  | .assignment =>
    let (code, names) := Statement.assignment l.code cx.scope.names
    (.statement code depth, cx.withNames names)
  | .call => (.statement (Statement.call l.code) depth, cx)

/-- Converts a line by its kind; a line of no known form is kept as a comment.  A line that ends
inside a literal is reported and still converted. -/
def convertLine (cx : LineContext) (l : SourceLine) (depth : Nat) : LineResult × LineContext :=
  let cx := if Scan.unclosed l.code then cx.warn (l.notice .openLiteral) else cx
  match l.kind? with
  | some kind => cx.convertKind l depth kind
  | none =>
    (.line depth ("// ".toList ++ l.text) depth, cx.warn (l.notice .unrecognised))

end LineContext

end Pseudocode
