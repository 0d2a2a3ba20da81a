import Pseudocode.Convert
import Pseudocode.Proofs.Routine.Basic

/-!
# Programs

A program is a main routine with functions before and after it.  A start marker inside the main
routine begins another one.  Its parts are converted here one by one, each from nothing;
`convert_eq` shows that the two passes over the lines come to the same.

* `Program.ofLines?` : finds the main routines in the lines of a source.
* `convertFunctions` : converts the lines outside the main routine.
* `Program.convert` : converts a program.
-/

namespace Pseudocode

/-- A main routine: a start marker and the lines after it, up to the next start or the end. -/
structure MainRoutine where
  /-- The line that starts it. -/
  start : SourceLine
  /-- The lines of its body, comments included. -/
  body : List SourceLine
  deriving DecidableEq, Repr

/-- The parts of a program. -/
structure Program where
  /-- The lines before the start and after the end. -/
  outside : List SourceLine
  /-- The main routine that the first start marker begins. -/
  first : MainRoutine
  /-- Those that further start markers begin. -/
  others : List MainRoutine
  /-- The line at which a missing end is reported, none if the end is there. -/
  missingEnd : Option Int
  deriving DecidableEq, Repr

namespace Program

/-- Cuts lines at start markers: the lines before the first one, and the routines. -/
def cutAtStarts : List SourceLine → List SourceLine × List MainRoutine
  | [] => ([], [])
  | l :: ls =>
    let (body, routines) := cutAtStarts ls
    if l.isProgramStart then ([], ⟨l, body⟩ :: routines) else (l :: body, routines)

/-- The parts of a program, none if no line starts it.  The main routine runs from the first start
marker to the first end marker after it, or to the end of the source. -/
def ofLines? (lines : List SourceLine) : Option Program :=
  match lines.dropWhile (!·.isProgramStart) with
  | [] => none
  | start :: rest =>
    let (body, others) := cutAtStarts (rest.takeWhile (!·.isProgramEnd))
    let before := lines.takeWhile (!·.isProgramStart)
    match rest.dropWhile (!·.isProgramEnd) with
    | [] => some ⟨before, ⟨start, body⟩, others, some ((rest.getLast?.getD start).num)⟩
    | _ :: after => some ⟨before ++ after, ⟨start, body⟩, others, none⟩

/-- The main routines, in order. -/
def routines (p : Program) : List MainRoutine := p.first :: p.others

/-- The name of the last main routine, which is the one that is called. -/
def name (p : Program) : List Char := (p.others.getLast?.getD p.first).start.programName

end Program

/-- Converts a line of a routine, where comments are kept as they are. -/
def Routine.feedBody (r : Routine) (l : SourceLine) : Written × Routine :=
  if l.isComment then (.code [.line 0 l.text], r) else r.feed l

/-- Converts the lines of a routine one after the other. -/
def Routine.feedBodies (r : Routine) : List SourceLine → Written × Routine
  | [] => (.empty, r)
  | l :: ls =>
    let (w, r) := r.feedBody l
    let (v, r) := r.feedBodies ls
    (w ++ v, r)

/-- Converts a main routine. -/
def MainRoutine.convert (s : MainRoutine) : Written :=
  let name := s.start.programName
  let opening : Written := .code
    [.line 0 ("// Algoritmo: ".toList ++ name),
     .line 0 ("function ".toList ++ name ++ "() \x7b".toList)]
  let (body, r) := (Routine.start 1).feedBodies s.body
  opening ++ body ++ r.close.1

/-- A function that is being converted. -/
structure OpenFunction where
  /-- The line of its header. -/
  header : SourceLine
  /-- The header as it was read, none if it could not be. -/
  function : Option Header.Function
  /-- The state of its body. -/
  routine : Routine
  deriving DecidableEq, Repr

namespace OpenFunction

/-- Starts a function. -/
def start (l : SourceLine) : Written × OpenFunction :=
  match Header.Function.ofText? l.code with
  | some f =>
    let names := (Names.empty.declareAll (f.params ++ f.result.toList)).2
    (.code f.pieces, ⟨l, some f, ⟨⟨names, []⟩, 1⟩⟩)
  | none =>
    (⟨[.line 0 (Header.unconvertedFunction l.code)], [l.notice .unconvertedFunction]⟩,
      ⟨l, none, .start 1⟩)

/-- Ends a function: closes its blocks, returns its result and closes its body.  A header that was
kept as a comment has a comment for its end. -/
def close (f : OpenFunction) : Written :=
  let (blocks, r) := f.routine.closeBlocks
  match f.function with
  | some function =>
    let returns := function.result.toList.map fun result =>
      Piece.line r.depth ("return ".toList ++ result ++ ";".toList)
    blocks ++ .code returns ++ r.close.1
  | none => blocks ++ .code [.line 0 "// FinFuncion".toList, .blank]

/-- Ends a function that has no end marker. -/
def closeUnended (f : OpenFunction) : Written :=
  ⟨[], [f.header.notice .unclosedFunction]⟩ ++ f.close

end OpenFunction

/-- Converts a line outside the main routine; lines outside functions are dropped. -/
def functionStep (f : Option OpenFunction) (l : SourceLine) : Written × Option OpenFunction :=
  if l.isFunctionStart then
    let ended := (f.map OpenFunction.closeUnended).getD .empty
    let (opening, g) := OpenFunction.start l
    (ended ++ opening, some g)
  else match f with
    | none =>
      (if l.isFunctionEnd then ⟨[], [l.notice .strayFunctionEnd]⟩ else .empty, none)
    | some f =>
      if l.isFunctionEnd then (f.close, none)
      else
        let (w, routine) := f.routine.feedBody l
        (w, some { f with routine })

/-- Converts lines outside the main routine one after the other. -/
def functionSteps (f : Option OpenFunction) : List SourceLine → Written × Option OpenFunction
  | [] => (.empty, f)
  | l :: ls =>
    let (w, f) := functionStep f l
    let (v, f) := functionSteps f ls
    (w ++ v, f)

/-- Converts all lines outside the main routine. -/
def convertFunctions (lines : List SourceLine) : Written :=
  let (w, f) := functionSteps none lines
  w ++ (f.map OpenFunction.closeUnended).getD .empty

/-- Converts a program. -/
def Program.convert (p : Program) : Written :=
  let missing : Written := ⟨[], p.missingEnd.toList.map .ofMissingEnd⟩
  let functions := convertFunctions p.outside
  let gap : Written := .code (if functions.pieces.isEmpty then [] else [.blank])
  let main := (p.routines.map MainRoutine.convert).foldr (· ++ ·) .empty
  missing ++ .code preamble ++ functions ++ gap ++ main ++ .code (finalCall p.name)

end Pseudocode
