import Pseudocode.Proofs.Declared.Calls
import Pseudocode.Proofs.Pass.Routine

/-!
# Generated code by its form

The lines that the body of a routine writes have few forms: they introduce names, give values to
targets, or open, turn and close blocks.  A form shows what its text does to names, which the text
alone, being a list of characters, does not.

* `emitAll`, `writeAll_fst` : statements, each of them with or without `let`.
* `Form`, `Form.pieces` : the forms of generated lines, and their text.
* `Routine.codeLines` : the lines that a routine writes, by their forms.
* `Pass.text_feedBodies` : **the text of a body is that of its code lines.**
-/

namespace Pseudocode

namespace Statement

/-- A statement that gives a value to a target, as it is written. -/
structure Emitted where
  /-- The statement without `let`. -/
  write : Write
  /-- The statement starts with `let`. -/
  isLet : Bool
  deriving DecidableEq, Repr

/-- The text of a statement. -/
def Emitted.code (e : Emitted) : List Char :=
  (if e.isLet then "let ".toList else []) ++ e.write.target ++ e.write.rest

/-- Statements as they are written one after the other. -/
def emitAll : List Write → Names → List Emitted
  | [], _ => []
  | w :: ws, names =>
    let (isNew, names) := if w.isPlain then names.declare w.target else (false, names)
    ⟨w, isNew⟩ :: emitAll ws names

theorem emitAll_cons_of_element {w : Write} (h : w.isPlain = false) (ws : List Write)
    (names : Names) : emitAll (w :: ws) names = ⟨w, false⟩ :: emitAll ws names := by
  simp only [emitAll, h, Bool.false_eq_true, if_false]

theorem emitAll_cons_of_plain {w : Write} (h : w.isPlain = true) (ws : List Write)
    (names : Names) :
    emitAll (w :: ws) names =
      ⟨w, (names.declare w.target).1⟩ :: emitAll ws (names.declare w.target).2 := by
  simp only [emitAll, h, if_true]

theorem writeAll_fst (ws : List Write) (names : Names) :
    (writeAll ws names).1 = (emitAll ws names).map (·.code) := by
  induction ws generalizing names with
  | nil => rfl
  | cons w ws ih =>
    cases h : w.isPlain with
    | false =>
      rw [emitAll_cons_of_element h]
      simp only [writeAll, h, Bool.false_eq_true, if_false, ih, List.map_cons, Emitted.code]
    | true =>
      rw [emitAll_cons_of_plain h]
      simp only [writeAll, h, if_true, ih, List.map_cons, Emitted.code, Names.introduce]

theorem write_mem_of_mem_emitAll {ws : List Write} {names : Names} {e : Emitted}
    (h : e ∈ emitAll ws names) : e.write ∈ ws := by
  induction ws generalizing names with
  | nil => cases h
  | cons w ws ih =>
    obtain rfl | h := List.mem_cons.1 h
    · exact List.mem_cons_self
    · exact List.mem_cons_of_mem w (ih h)

theorem Emitted.code_ne_nil {e : Emitted} (h : e.write.rest ≠ []) : e.code ≠ [] :=
  List.append_ne_nil_of_right_ne_nil _ h

theorem inputWrite_rest_ne_nil {targets : List (List Char)} {w : Write}
    (h : w ∈ targets.map inputWrite) : w.rest ≠ [] := by
  obtain ⟨target, -, rfl⟩ := List.mem_map.1 h
  unfold inputWrite
  split <;> simp

end Statement

open Statement Header

/-- The forms of generated lines. -/
inductive Form
  /-- A comment of the source, which is not indented. -/
  | comment (text : List Char)
  /-- A line that gives no value to a target and stands in the block of the line before it. -/
  | plain (code : List Char)
  /-- `let a, b;`, an empty line if there are no names. -/
  | lets (names : List (List Char))
  /-- Statements on one line. -/
  | writes (statements : List Emitted)
  /-- Lines that open a block. -/
  | opens (codes : List (List Char))
  /-- The header of a counted loop, which opens a block. -/
  | loop (head : Emitted)
  /-- The start of the other branch, which closes a block and opens one. -/
  | turns
  /-- A line that closes a block. -/
  | closes (code : List Char)
  deriving DecidableEq, Repr

/-- A generated line, or two lines that open a block together. -/
structure CodeLine where
  /-- The nesting depth before the line. -/
  depth : Nat
  /-- Its form. -/
  form : Form
  deriving DecidableEq, Repr

/-- The text of a line. -/
def CodeLine.pieces (c : CodeLine) : List Piece :=
  match c.form with
  | .comment text => [.line 0 text]
  | .plain code => (Routine.start c.depth).statement code
  | .lets names =>
    (Routine.start c.depth).statement
      (if names.isEmpty then [] else "let ".toList ++ Text.join ", ".toList names ++ ";".toList)
  | .writes statements =>
    (Routine.start c.depth).statement (Text.join " ".toList (statements.map (·.code)))
  | .opens codes => codes.map (.line c.depth)
  | .loop head => [.line c.depth ("for (".toList ++ head.code)]
  | .turns => [.line (c.depth - 1) "\x7d else \x7b".toList]
  | .closes code => [.line (c.depth - 1) code]

/-- The forms of the lines that are written for a line of the given kind. -/
def LineKind.forms (line : List Char) (names : Names) : LineKind → List Form
  | declaration => [.lets (names.declareAll (declaredNames line)).1]
  | dimension =>
    if allArrays (dimensionItems line) then
      [.writes (emitAll ((leadingArrays (dimensionItems line)).map (·.write)) names)]
    else [.plain ("// ".toList ++ line)]
  | input => (emitAll ((inputTargets line).map inputWrite) names).map fun e => .writes [e]
  | output => [.plain (Statement.output line)]
  | branch => [.opens [Header.branch line]]
  | otherwise => [.turns]
  | endBranch | endWhile | endCounted => [.closes "\x7d".toList]
  | whileLoop => [.opens [Header.whileLoop line]]
  | countedLoop =>
    match CountedLoop.ofText? line with
    | some loop => [.loop ⟨loop.write, !names.contains loop.counter⟩]
    | none => [.opens [unconvertedLoop line, "\x7b".toList]]
  | repeatLoop => [.opens ["do \x7b".toList]]
  | untilLoop => [.closes (Header.untilLoop line)]
  | assignment =>
    match assignmentSides? line with
    | some (left, right) => [.writes (emitAll [assignmentWrite left right] names)]
    | none => [.plain ("// ".toList ++ line)]
  | call => [.plain (Statement.call line)]

/-- The forms of the lines that are written for a line of a routine. -/
def SourceLine.forms (l : SourceLine) (names : Names) : List Form :=
  if l.isComment then [.comment l.text]
  else
    match l.kind? with
    | some kind => kind.forms l.code names
    | none => [.plain ("// ".toList ++ l.text)]

namespace Routine

/-- The lines that are written for lines of a routine. -/
def codeLines (r : Routine) : List SourceLine → List CodeLine
  | [] => []
  | l :: ls => (l.forms r.scope.names).map (⟨r.depth, ·⟩) ++ (r.feedBody l).2.codeLines ls

theorem statement_of_ne_nil (r : Routine) {code : List Char} (h : code ≠ []) :
    r.statement code = [.line r.depth code] :=
  if_neg (List.isEmpty_iff.not.2 h)

theorem pieces_input (r : Routine) (line : List Char) :
    (Statement.input line r.depth r.scope.names).1 =
      ((LineKind.input.forms line r.scope.names).map (CodeLine.mk r.depth)).flatMap (·.pieces) := by
  simp only [Statement.input, readTargets_eq, writeAll_fst, LineKind.forms, List.map_map,
    List.flatMap_map]
  rw [List.map_eq_flatMap]
  refine List.flatMap_congr fun e he => ?_
  -- every prompt has code behind its target, so no line is empty
  have hne : e.code ≠ [] :=
    Emitted.code_ne_nil (inputWrite_rest_ne_nil (write_mem_of_mem_emitAll he))
  exact (statement_of_ne_nil (start r.depth) hne).symm

theorem pieces_feedKind (r : Routine) (l : SourceLine) (kind : LineKind) :
    (r.feedKind l kind).1.pieces =
      ((kind.forms l.code r.scope.names).map (CodeLine.mk r.depth)).flatMap (·.pieces) := by
  cases kind with
  | input => exact r.pieces_input l.code
  | dimension =>
    simp only [feedKind, Statement.dimension, allocateAll_eq, writeAll_fst, LineKind.forms]
    cases allArrays (dimensionItems l.code) <;> exact (List.append_nil _).symm
  | assignment =>
    cases h : assignmentSides? l.code with
    | none =>
      simp only [feedKind, Statement.assignment, LineKind.forms, h]
      exact (List.append_nil _).symm
    | some sides =>
      simp only [feedKind, assignment_eq h, writeAll_fst, LineKind.forms, h, emitAll, List.map_cons,
        List.map_nil, List.flatten_singleton]
      exact (List.append_nil _).symm
  | countedLoop =>
    cases h : CountedLoop.ofText? l.code with
    | none =>
      simp only [feedKind, countedLoop?, LineKind.forms, h, Option.map_none]
      rfl
    | some loop =>
      simp only [feedKind, countedLoop?, LineKind.forms, h, Option.map_some, loop.code_eq]
      cases r.scope.names.contains loop.counter <;> rfl
  | declaration => exact (List.append_nil _).symm
  | output => exact (List.append_nil _).symm
  | call => exact (List.append_nil _).symm
  | _ => rfl

theorem pieces_feedBody (r : Routine) (l : SourceLine) :
    (r.feedBody l).1.pieces =
      ((l.forms r.scope.names).map (CodeLine.mk r.depth)).flatMap (·.pieces) := by
  unfold feedBody SourceLine.forms
  split
  · rfl
  · simp only [feed, convertLine, Written.pieces_append, List.nil_append]
    cases l.kind? with
    | none => rfl
    | some kind => exact r.pieces_feedKind l kind

theorem pieces_feedBodies (r : Routine) (ls : List SourceLine) :
    (r.feedBodies ls).1.pieces = (r.codeLines ls).flatMap (·.pieces) := by
  induction ls generalizing r with
  | nil => rfl
  | cons l ls ih =>
    simp only [feedBodies, codeLines, Written.pieces_append, List.flatMap_append, pieces_feedBody,
      ih]

end Routine

namespace Pass

variable (p : Pass) (l : SourceLine)

/-- **The text of a body is that of its code lines.** -/
theorem text_feedBodies (ls : List SourceLine) : (p.feedBodies ls).writer.text =
    p.writer.text ++ render ((p.routine.codeLines ls).flatMap (·.pieces)) := by
  rw [feedBodies_eq, text_after, Routine.pieces_feedBodies]

theorem text_feedBody : (p.feedBody l).writer.text = p.writer.text ++
    render (((l.forms p.scope.names).map (CodeLine.mk p.writer.depth)).flatMap (·.pieces)) := by
  rw [feedBody_eq, text_after, Routine.pieces_feedBody]
  rfl

end Pass

end Pseudocode
