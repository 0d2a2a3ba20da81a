import Pseudocode.Dispatch
import Pseudocode.Header.Function

/-!
# Passes

A pass goes over lines and writes their code.  There are two of them: one over the lines of the
main program and one over the lines outside it.  Each keeps one state for all the routines that it
meets, so what a routine needs afresh is reset where it starts.

* `Pass.feed` : converts a line.
* `Pass.closeBlocks`, `Pass.closeRoutine` : close what is open.
* `MainPass.convert` : converts the main program.
* `FunctionPass.convert` : converts the functions.
-/

namespace Pseudocode

/-- Generated text and the nesting depth of its next line. -/
structure CodeWriter where
  /-- What has been written. -/
  text : List Char
  /-- The nesting depth. -/
  depth : Nat
  deriving DecidableEq, Repr

namespace CodeWriter

/-- Nothing is written. -/
def empty : CodeWriter := ⟨[], 0⟩

/-- Writes a text as it stands. -/
def raw (w : CodeWriter) (text : List Char) : CodeWriter := { w with text := w.text ++ text }

/-- Writes a line at the current depth. -/
def line (w : CodeWriter) (code : List Char) : CodeWriter := w.raw (Piece.line w.depth code).text

/-- Sets the depth; a negative one counts as zero. -/
def setDepth (w : CodeWriter) (depth : Int) : CodeWriter := { w with depth := depth.toNat }

/-- One level out, as long as there is one. -/
def dedent (w : CodeWriter) : CodeWriter := w.setDepth (w.depth - 1)

/-- Closes levels by a brace each until the body of the routine is reached, at most `bound` of
them. -/
def closeLevels : (bound : Nat) → CodeWriter → CodeWriter
  | 0, w => w
  | bound + 1, w => if 1 < w.depth then closeLevels bound (w.dedent.line "\x7d".toList) else w

end CodeWriter

/-- The state of a pass. -/
structure Pass extends LineContext where
  /-- What is written. -/
  writer : CodeWriter
  deriving DecidableEq, Repr

/-- The line that closes a block that has no terminator. -/
def forcedCloser : BlockKind → List Char
  | .repeatLoop => "\x7d while (false);".toList
  | _ => "\x7d".toList

namespace Pass

/-- A pass that has met no line, with the record of the conversion so far. -/
def start (opts : Options) (diag : Diagnostics) : Pass := ⟨⟨.empty, diag, opts⟩, .empty⟩

/-- Records a fault of nesting. -/
def blockProblem (p : Pass) (n : Notice) : Pass :=
  { p with toLineContext := p.toLineContext.blockProblem n }

/-- Keeps a comment as it is. -/
def comment (p : Pass) (l : SourceLine) : Pass :=
  { p with writer := p.writer.raw (l.text ++ ['\n']) }

/-- Converts a line at the current depth. -/
def feed (p : Pass) (l : SourceLine) : Pass :=
  let (res, cx) := p.toLineContext.convertLine l p.writer.depth
  ⟨cx, (p.writer.raw res.code).setDepth res.depth⟩

/-- Converts a line of a body, where comments are kept as they are. -/
def feedBody (p : Pass) (l : SourceLine) : Pass := if l.isComment then p.comment l else p.feed l

/-- Converts lines one after the other. -/
def feedAll (p : Pass) (ls : List SourceLine) : Pass := ls.foldl feed p

/-- Reports open blocks, innermost first, and closes those for which a level is left. -/
def closeEach : Pass → List OpenBlock → Pass
  | p, [] => p
  | p, b :: bs =>
    let p := p.blockProblem (.ofUnclosed b)
    if p.writer.depth ≤ 1 then closeEach p bs
    else closeEach { p with writer := p.writer.dedent.line (forcedCloser b.kind) } bs

/-- Reports the blocks that are still open and closes them, down to the body of the routine. -/
def closeBlocks (p : Pass) : Pass :=
  let (blocks, scope) := p.scope.drain
  let p := closeEach { p with scope } blocks
  { p with writer := p.writer.closeLevels p.writer.depth }

/-- Returns the result of a function, if it has one. -/
def returnResult (p : Pass) : Option (List Char) → Pass
  | some result =>
    { p with writer := p.writer.line ("return ".toList ++ result ++ ";".toList) }
  | none => p

/-- Ends the routine: closes its blocks and its body. -/
def closeRoutine (p : Pass) : Pass :=
  let p := p.closeBlocks
  { p with writer := ((p.writer.setDepth 0).line "\x7d".toList).raw ['\n'] }

end Pass

/-! ### The main program -/

/-- The state of the pass over the main program. -/
structure MainPass extends Pass where
  /-- The name of the routine that was started last. -/
  name : List Char
  /-- A routine is open. -/
  isOpen : Bool
  deriving DecidableEq, Repr

namespace MainPass

/-- The pass before its first line. -/
def start (opts : Options) (diag : Diagnostics) : MainPass :=
  ⟨.start opts diag, SourceLine.defaultProgramName, false⟩

/-- Ends the routine that is open, if there is one. -/
def finish (m : MainPass) : Pass := if m.isOpen then m.toPass.closeRoutine else m.toPass

/-- Starts a routine. -/
def begin (m : MainPass) (l : SourceLine) : MainPass :=
  let p := m.finish
  let name := l.programName
  let w := ((p.writer.setDepth 0).line ("// Algoritmo: ".toList ++ name)).line
    ("function ".toList ++ name ++ "() \x7b".toList)
  ⟨{ p with scope := .empty, writer := w.setDepth 1 }, name, true⟩

/-- Converts a line of the main program. -/
def step (m : MainPass) (l : SourceLine) : MainPass :=
  if l.isComment then { m with toPass := m.toPass.comment l }
  else if l.isProgramStart then m.begin l
  else if l.isProgramEnd then { m with toPass := m.toPass.closeRoutine, isOpen := false }
  else { m with toPass := m.toPass.feed l }

/-- Converts lines of the main program one after the other. -/
def run (m : MainPass) (ls : List SourceLine) : MainPass := ls.foldl step m

/-- Converts the main program: the text, the name of the routine and the record. -/
def convert (opts : Options) (diag : Diagnostics) (ls : List SourceLine) :
    (List Char × List Char) × Diagnostics :=
  let m := (start opts diag).run ls
  ((m.finish.writer.text, m.name), m.finish.diag)

end MainPass

/-! ### Functions -/

/-- The state of the pass over the lines outside the main program. -/
structure FunctionPass extends Pass where
  /-- A function is open. -/
  inFunction : Bool
  /-- Its header could be read. -/
  converted : Bool
  /-- The variable that holds its result. -/
  returnVar : Option (List Char)
  /-- The line of its header. -/
  header : SourceLine
  deriving DecidableEq, Repr

namespace FunctionPass

/-- The pass before its first line. -/
def start (opts : Options) (diag : Diagnostics) : FunctionPass :=
  ⟨.start opts diag, false, false, none, ⟨0, [], [], []⟩⟩

/-- Starts a function.  A header that cannot be read is kept as a comment. -/
def begin (fp : FunctionPass) (l : SourceLine) : FunctionPass :=
  let function := Header.Function.ofText? l.code
  let code := (function.map (·.code)).getD (Header.unconvertedFunction l.code)
  let returnVar := function.bind (·.result)
  let bound := (function.map (·.params)).getD [] ++ returnVar.toList
  { fp with
    diag := if function.isNone then fp.diag.warn (l.notice .unconvertedFunction) else fp.diag
    scope := { Scope.empty with names := (Names.empty.declareAll bound).2 }
    writer := ((fp.writer.setDepth 0).line code).setDepth 1
    inFunction := true
    converted := function.isSome
    returnVar
    header := l }

/-- Ends the function: closes its blocks, returns its result and closes its body.  A header that
was kept as a comment has a comment for its end. -/
def finish (fp : FunctionPass) : FunctionPass :=
  let p := fp.toPass.closeBlocks.returnResult fp.returnVar
  let p :=
    if fp.converted then p.closeRoutine
    else { p with writer := ((p.writer.setDepth 0).line "// FinFuncion".toList).raw ['\n'] }
  { fp with toPass := p, inFunction := false, converted := false, returnVar := none }

/-- Ends the function that is open, if there is one, and reports that it has no end. -/
def finishUnended (fp : FunctionPass) : FunctionPass :=
  if fp.inFunction then
    finish { fp with toPass := fp.toPass.blockProblem (fp.header.notice .unclosedFunction) }
  else fp

/-- Converts a line outside the main program; lines outside functions are dropped. -/
def step (fp : FunctionPass) (l : SourceLine) : FunctionPass :=
  if l.isFunctionStart then fp.finishUnended.begin l
  else if l.isFunctionEnd then
    if fp.inFunction then fp.finish
    else { fp with toPass := fp.toPass.blockProblem (l.notice .strayFunctionEnd) }
  else if !fp.inFunction then fp
  else { fp with toPass := fp.toPass.feedBody l }

/-- Converts lines outside the main program one after the other. -/
def run (fp : FunctionPass) (ls : List SourceLine) : FunctionPass := ls.foldl step fp

/-- Converts the lines outside the main program: the text and the record. -/
def convert (opts : Options) (diag : Diagnostics) (ls : List SourceLine) :
    List Char × Diagnostics :=
  let fp := ((start opts diag).run ls).finishUnended
  (fp.writer.text, fp.diag)

end FunctionPass

end Pseudocode
