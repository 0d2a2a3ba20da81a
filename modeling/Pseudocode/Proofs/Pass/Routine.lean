import Pseudocode.Proofs.Program.Basic
import Pseudocode.Proofs.Record

/-!
# Passes and routines

A pass holds a routine: its scope, and the depth of its writer.  Feeding a line to the pass is
feeding it to the routine, writing the pieces behind the text and recording the notices as the
options say (`Pass.after`).  The same goes for the end of a routine.  So whatever is known of
routines is known of passes.

* `LineContext.convertLine_eq` : **a line is converted as the routine says.**
* `Pass.feed_eq`, `Pass.feedBodies_eq` : so a pass feeds it, and the lines of a body.
* `Pass.closeBlocks_eq`, `Pass.closeRoutine_eq` : **the loops that close blocks and levels.**
-/

namespace Pseudocode

/-! ### One line -/

namespace LineContext

variable (cx : LineContext) (l : SourceLine) (depth : Nat)

/-- What a line is converted to, and the context after it, as a routine says. -/
def after (s : Written × Routine) : LineResult × LineContext :=
  (⟨render s.1.pieces, s.2.depth⟩, { cx.reportAll s.1.notices with scope := s.2.scope })

/-- The routine that a line at the given depth belongs to. -/
def routine : Routine := ⟨cx.scope, depth⟩

theorem after_code (pieces : List Piece) (r : Routine) :
    cx.after (.code pieces, r) = (⟨render pieces, r.depth⟩, { cx with scope := r.scope }) := by
  simp [after, Written.code, reportAll_nil]

theorem statement_eq (code : List Char) :
    LineResult.statement code depth = ⟨render ((cx.routine depth).statement code), depth⟩ := by
  unfold LineResult.statement Routine.statement
  split <;> simp [LineResult.line, routine, Piece.blank, Piece.text, indent]

theorem openBlock_eq (kind : BlockKind) (code : List Char) :
    cx.openBlock kind l code depth =
      cx.after (.code ((cx.routine depth).openBlock kind l [code]).1,
        ((cx.routine depth).openBlock kind l [code]).2) := by
  simp [after_code, openBlock, Routine.openBlock, routine, LineResult.line]

theorem closeBlock_eq (kind : BlockKind) (code : List Char) :
    cx.closeBlock kind l code depth =
      cx.after ((cx.routine depth).closeBlock kind l code) := by
  have hline : LineResult.line (depth - 1) code (depth - 1) =
      ⟨render [.line (depth - 1) code], depth - 1⟩ := by
    simp [LineResult.line]
  simp only [closeBlock, Routine.closeBlock, routine, after, Scope.pop, hline]
  refine congrArg (Prod.mk _) ?_
  cases htop : cx.scope.top? with
  | none => exact blockProblem_eq _ rfl
  | some b =>
    simp only [Routine.closerNotices]
    split
    · simp [reportAll]
    · exact blockProblem_eq _ rfl

theorem otherwise_eq : cx.otherwise l depth = cx.after ((cx.routine depth).otherwise l) := by
  simp only [otherwise, Routine.otherwise, routine, after]
  refine Prod.ext ?_ ?_
  · simp [LineResult.line]
  · by_cases hstray : cx.scope.top?.all (·.kind != .branch) = true
    · simp only [hstray, if_true]
      exact blockProblem_eq _ rfl
    · simp only [hstray]
      exact cx.reportAll_nil.symm

theorem unconvertedLoop_eq (code : List Char) :
    (cx.warn (l.notice .unconvertedLoop)).openBlock .countedLoop l
        (code ++ '\n' :: indent depth ++ "\x7b".toList) depth =
      cx.after (⟨((cx.routine depth).openBlock .countedLoop l [code, "\x7b".toList]).1,
          [l.notice .unconvertedLoop]⟩,
        ((cx.routine depth).openBlock .countedLoop l [code, "\x7b".toList]).2) := by
  rw [cx.warn_eq rfl]
  simp [openBlock, Routine.openBlock, routine, after, LineResult.line, Piece.text, reportAll]

/-- **A line of a kind is converted as the routine says.** -/
theorem convertKind_eq (kind : LineKind) :
    cx.convertKind l depth kind = cx.after ((cx.routine depth).feedKind l kind) := by
  cases kind with
  | declaration | dimension | assignment =>
    simp only [convertKind, Routine.feedKind, after_code, statement_eq cx]
    rfl
  | output | call =>
    simp only [convertKind, Routine.feedKind, after_code, statement_eq cx]
    rfl
  | input =>
    simp only [convertKind, Routine.feedKind]
    rw [cx.warn_eq rfl]
    rfl
  | branch | whileLoop | repeatLoop => exact openBlock_eq ..
  | endBranch | endWhile | endCounted | untilLoop => exact closeBlock_eq ..
  | otherwise => exact otherwise_eq ..
  | countedLoop =>
    simp only [convertKind, Routine.feedKind]
    have hnames : (cx.routine depth).scope.names = cx.scope.names := rfl
    rw [hnames]
    cases Header.countedLoop? l.code cx.scope.names with
    | some code => exact openBlock_eq ..
    | none => exact unconvertedLoop_eq ..

/-- **A line is converted as the routine says,** and what is said about it whatever its kind comes
first. -/
theorem convertLine_eq :
    cx.convertLine l depth = cx.after ((cx.routine depth).feed l) := by
  have hliteral : (if Scan.unclosed l.code then cx.warn (l.notice .openLiteral) else cx) =
      cx.reportAll (Routine.literalNotices l) := by
    unfold Routine.literalNotices
    split
    · exact cx.warn_eq rfl
    · exact cx.reportAll_nil.symm
  have hafter (s : Written × Routine) :
      (cx.reportAll (Routine.literalNotices l)).after s =
        cx.after (⟨[], Routine.literalNotices l⟩ ++ s.1, s.2) := by
    simp [after, reportAll, Diagnostics.reportAll_reportAll]
  simp only [convertLine, hliteral, Routine.feed, Routine.convertLine]
  cases l.kind? with
  | some kind => exact (convertKind_eq _ l depth kind).trans (hafter _)
  | none =>
    refine Eq.trans ?_ (hafter _)
    simp only [after]
    rw [warn_eq _ rfl]
    simp [LineResult.line, routine, reportAll]

end LineContext

/-! ### Writers -/

namespace CodeWriter

@[simp] theorem text_raw (w : CodeWriter) (text : List Char) : (w.raw text).text = w.text ++ text :=
  rfl

@[simp] theorem depth_raw (w : CodeWriter) (text : List Char) : (w.raw text).depth = w.depth := rfl

@[simp] theorem text_line (w : CodeWriter) (code : List Char) :
    (w.line code).text = w.text ++ (Piece.line w.depth code).text :=
  rfl

@[simp] theorem depth_line (w : CodeWriter) (code : List Char) : (w.line code).depth = w.depth :=
  rfl

@[simp] theorem text_setDepth (w : CodeWriter) (depth : Int) : (w.setDepth depth).text = w.text :=
  rfl

@[simp] theorem depth_setDepth (w : CodeWriter) (depth : Int) :
    (w.setDepth depth).depth = depth.toNat :=
  rfl

@[simp] theorem text_dedent (w : CodeWriter) : w.dedent.text = w.text := rfl

@[simp] theorem depth_dedent (w : CodeWriter) : w.dedent.depth = w.depth - 1 := by
  rw [dedent, depth_setDepth]
  omega

theorem dedent_line (w : CodeWriter) (code : List Char) :
    w.dedent.line code = ⟨w.text ++ (Piece.line (w.depth - 1) code).text, w.depth - 1⟩ := by
  change CodeWriter.mk (w.text ++ (Piece.line w.dedent.depth code).text) w.dedent.depth = _
  rw [depth_dedent]

/-- The loop that closes levels stops at the body of the routine, and its bound is never met. -/
theorem closeLevels_eq (w : CodeWriter) {bound : Nat} (h : w.depth ≤ bound) :
    w.closeLevels bound = ⟨w.text ++ render (Routine.closersFrom w.depth), min w.depth 1⟩ := by
  induction bound generalizing w with
  | zero =>
    obtain ⟨text, depth⟩ := w
    obtain rfl : depth = 0 := Nat.le_zero.1 h
    simp [closeLevels, Routine.closersFrom]
  | succ bound ih =>
    rw [closeLevels]
    obtain ⟨text, depth⟩ := w
    match depth with
    | 0 | 1 => simp [Routine.closersFrom]
    | d + 2 =>
      rw [if_pos (by simp), dedent_line, ih _ (by simpa using h)]
      simp [Routine.closersFrom]

end CodeWriter

/-! ### Passes -/

namespace Pass

variable (p : Pass)

/-- The routine that the pass is in. -/
def routine : Routine := p.toLineContext.routine p.writer.depth

/-- The pass after a step of its routine. -/
def after (s : Written × Routine) : Pass :=
  ⟨(p.toLineContext.after s).2, ⟨p.writer.text ++ render s.1.pieces, s.2.depth⟩⟩

@[simp] theorem routine_after (s : Written × Routine) : (p.after s).routine = s.2 := rfl

@[simp] theorem opts_after (s : Written × Routine) : (p.after s).opts = p.opts := rfl

@[simp] theorem text_after (s : Written × Routine) :
    (p.after s).writer.text = p.writer.text ++ render s.1.pieces :=
  rfl

@[simp] theorem diag_after (s : Written × Routine) :
    (p.after s).diag = p.diag.reportAll p.opts.strict s.1.notices :=
  rfl

theorem after_empty : p.after (.empty, p.routine) = p := by
  simp [after, LineContext.after, routine, LineContext.routine, LineContext.reportAll]

theorem after_after (s t : Written × Routine) :
    (p.after s).after t = p.after (s.1 ++ t.1, t.2) := by
  simp [after, LineContext.after, LineContext.reportAll, Diagnostics.reportAll_reportAll]

variable (l : SourceLine)

/-- **A pass feeds a line to its routine.** -/
theorem feed_eq : p.feed l = p.after (p.routine.feed l) := by
  simp only [feed, LineContext.convertLine_eq, after, routine]
  simp [CodeWriter.raw, CodeWriter.setDepth, LineContext.after]

theorem comment_eq : p.comment l = p.after (.code [.line 0 l.text], p.routine) := by
  simp [comment, after, LineContext.after_code, CodeWriter.raw, routine, LineContext.routine,
    Piece.text, indent]

theorem line_eq (code : List Char) :
    { p with writer := p.writer.line code } =
      p.after (.code [.line p.writer.depth code], p.routine) := by
  simp [after, LineContext.after_code, CodeWriter.line, CodeWriter.raw, routine,
    LineContext.routine]

theorem returnResult_eq (result : Option (List Char)) :
    p.returnResult result = p.after (.code (result.toList.map fun r =>
      .line p.writer.depth ("return ".toList ++ r ++ ";".toList)), p.routine) := by
  cases result with
  | none => exact p.after_empty.symm
  | some r => exact p.line_eq _

theorem feedBody_eq : p.feedBody l = p.after (p.routine.feedBody l) := by
  unfold feedBody Routine.feedBody
  split
  · exact p.comment_eq l
  · exact p.feed_eq l

theorem feedAll_eq (ls : List SourceLine) : p.feedAll ls = p.after (p.routine.feedAll ls) := by
  induction ls generalizing p with
  | nil => exact p.after_empty.symm
  | cons l ls ih =>
    have hstep : p.feedAll (l :: ls) = (p.feed l).feedAll ls := rfl
    rw [hstep, ih, feed_eq, routine_after, after_after]
    rfl

/-- Converts the lines of a body one after the other. -/
def feedBodies (p : Pass) (ls : List SourceLine) : Pass := ls.foldl feedBody p

theorem feedBodies_eq (ls : List SourceLine) :
    p.feedBodies ls = p.after (p.routine.feedBodies ls) := by
  induction ls generalizing p with
  | nil => exact p.after_empty.symm
  | cons l ls ih =>
    have hstep : p.feedBodies (l :: ls) = (p.feedBody l).feedBodies ls := rfl
    rw [hstep, ih, feedBody_eq, routine_after, after_after]
    rfl

theorem scope_feedBodies (ls : List SourceLine) :
    (p.feedBodies ls).scope = (p.routine.feedBodies ls).2.scope := by
  rw [feedBodies_eq]
  rfl

theorem blockProblem_eq {n : Notice} (h : n.cause.isNesting = true) :
    p.blockProblem n = p.after (⟨[], [n]⟩, p.routine) := by
  rw [blockProblem, LineContext.blockProblem_eq _ h]
  simp [after, LineContext.after, routine, LineContext.routine, LineContext.reportAll]

/-- The loop over the blocks that are left open and the loop over the levels behind it write the
lines of `Routine.closeAll`, and report each block. -/
theorem closeEach_eq (bs : List OpenBlock) :
    { p.closeEach bs with
      writer := (p.closeEach bs).writer.closeLevels (p.closeEach bs).writer.depth } =
    p.after (⟨Routine.closeAll bs p.writer.depth, bs.map .ofUnclosed⟩,
      ⟨p.scope, min p.writer.depth 1⟩) := by
  induction bs generalizing p with
  | nil =>
    simp [closeEach, CodeWriter.closeLevels_eq, after, LineContext.after, LineContext.reportAll,
      Routine.closeAll]
  | cons b bs ih =>
    have hproblem := p.blockProblem_eq (n := .ofUnclosed b) rfl
    have hdepth : (p.blockProblem (.ofUnclosed b)).writer.depth = p.writer.depth := rfl
    rw [closeEach]
    split
    · -- no level is left for the block
      rename_i hle
      have hlines : Routine.closeAll (b :: bs) p.writer.depth =
          Routine.closeAll bs p.writer.depth := Routine.closeAll_cons_of_le b bs hle
      rw [ih, hproblem, after_after, hlines]
      rfl
    · rename_i hgt
      obtain ⟨d, hd⟩ : ∃ d, p.writer.depth = d + 2 := ⟨p.writer.depth - 2, by omega⟩
      rw [ih, CodeWriter.dedent_line, hproblem]
      simp [after, LineContext.after, LineContext.reportAll, Diagnostics.reportAll_reportAll,
        Routine.closeAll, hd, routine, LineContext.routine]

/-- **The blocks that are left open are closed as the routine says.** -/
theorem closeBlocks_eq : p.closeBlocks = p.after p.routine.closeBlocks := by
  simp only [closeBlocks, closeEach_eq]
  rfl

theorem closeRoutine_eq : p.closeRoutine = p.after p.routine.close := by
  have hend : (p.after p.routine.closeBlocks).after
      (.code [.line 0 "\x7d".toList, .blank], { p.routine.closeBlocks.2 with depth := 0 }) =
      p.after p.routine.close :=
    p.after_after ..
  rw [closeRoutine, closeBlocks_eq, ← hend]
  simp [after, LineContext.after, LineContext.reportAll, CodeWriter.line, CodeWriter.raw,
    CodeWriter.setDepth, Written.code, Piece.blank, Piece.text, indent]

end Pass

end Pseudocode
