import Pseudocode.Proofs.Declared.Forms
import Pseudocode.Proofs.Marks
import Pseudocode.Proofs.Pass.Routine
import Pseudocode.Proofs.Scan.Parts

/-!
# Lines that a line of the source leaves

What is generated for a line of a routine is made of whole lines.  A statement without code leaves
an empty line, so that nothing of the source disappears, but an input statement writes one line for
each of its targets and is not made up for if it has none.

* `SourceLine.isEmptyInput` : an input statement without targets.
* `inputTargets_eq_nil_iff` : what stands in such a statement.
* `pieces_feed_eq_nil_iff` : **only such a statement leaves nothing.**
* `convertLine_leaves_lines` : what a line leaves, and how many lines a pass leaves at least.
-/

namespace Pseudocode

/-! ### Whole lines -/

/-- A text of one or more whole lines. -/
def IsLines (s : List Char) : Prop := s ≠ [] ∧ s.getLast? = some '\n'

variable {ps : List Piece}

theorem isLines_render (hne : ps ≠ []) : IsLines (render ps) := by
  obtain ⟨front, last, rfl⟩ := (List.eq_nil_or_concat ps).resolve_left hne
  simp [IsLines, Piece.text, ← List.append_assoc]

theorem length_le_count_render (ps : List Piece) : ps.length ≤ (render ps).count '\n' := by
  induction ps with
  | nil => exact Nat.zero_le _
  | cons p ps ih =>
    have hone : 1 ≤ p.text.count '\n' := List.count_pos_iff.2 (by simp [Piece.text])
    rw [render_cons, List.count_append, List.length_cons, Nat.add_comm]
    exact Nat.add_le_add hone ih

/-! ### Input without targets -/

namespace Statement

/-- The character separates the targets of an input statement. -/
def isTargetGap (c : Char) : Bool := c == ',' || Text.isSpace c

theorem role_of_isTargetGap {c : Char} (h : isTargetGap c = true) : Scan.role c = .plain := by
  have hmarks : Scan.marks [c] = [] := 
    marks_eq_nil_of_forall (p := isTargetGap) (by decide) (by simpa using h)
  exact Scan.marks_eq_nil_iff.1 hmarks c (List.mem_singleton_self c)

/-- **An input statement without targets** has only commas and spaces behind its keyword. -/
theorem inputTargets_eq_nil_iff {line : List Char} :
    inputTargets line = [] ↔ ∀ c ∈ Text.stripKey "leer".toList line, isTargetGap c = true := by
  have hpieces : inputTargets line = [] ↔
      ∀ piece ∈ Scan.cutTopLevel ',' (Text.stripKey "leer".toList line),
        ∀ c ∈ piece, Text.isSpace c = true := by
    simp [inputTargets, Scan.splitTopLevel, List.filter_eq_nil_iff, Text.trim_eq_nil_iff]
  rw [hpieces]
  constructor
  · intro h c hc
    obtain rfl | ⟨piece, hpiece, hmem⟩ := Scan.exists_mem_cutTopLevel ',' hc
    · rfl
    · simp [isTargetGap, h piece hpiece c hmem]
  · intro h piece hpiece c hc
    -- commas and spaces are neither quoted nor in brackets, so no comma is left in a piece
    have hcomma : ',' ∉ piece :=
      Scan.notMem_of_mem_cutFrom (fun d hd => role_of_isTargetGap (h d hd)) List.not_mem_nil hpiece
    have hgap : c = ',' ∨ Text.isSpace c = true := by
      simpa [isTargetGap] using h c (Scan.subset_of_mem_cutFrom hpiece hc)
    exact hgap.resolve_left fun heq => hcomma (heq ▸ hc)

end Statement

/-- The line is an input statement without targets. -/
def SourceLine.isEmptyInput (l : SourceLine) : Bool :=
  l.kind? == some .input && (Text.stripKey "leer".toList l.code).all Statement.isTargetGap

theorem SourceLine.isEmptyInput_iff {l : SourceLine} :
    l.isEmptyInput = true ↔ l.kind? = some .input ∧ Statement.inputTargets l.code = [] := by
  simp [isEmptyInput, Statement.inputTargets_eq_nil_iff]

/-! ### What a line leaves -/

namespace Routine

variable (r : Routine) (l : SourceLine)

theorem statement_ne_nil (code : List Char) : r.statement code ≠ [] := by
  unfold statement
  split <;> exact List.cons_ne_nil _ _

theorem pieces_feed : (r.feed l).1.pieces = (r.convertLine l).1.pieces := rfl

theorem pieces_input_eq_nil_iff :
    (r.feedKind l .input).1.pieces = [] ↔ Statement.inputTargets l.code = [] := by
  simp only [feedKind, Statement.input, Statement.readTargets_eq, List.map_eq_nil_iff]
  cases Statement.inputTargets l.code <;> simp [Statement.writeAll]

theorem pieces_feedKind_ne_nil {kind : LineKind} (h : kind ≠ .input) :
    (r.feedKind l kind).1.pieces ≠ [] := by
  cases kind with
  | input => exact absurd rfl h
  | output => exact r.statement_ne_nil (Statement.output l.code)
  | declaration | dimension | assignment | call => exact r.statement_ne_nil _
  | countedLoop =>
    simp only [feedKind]
    split <;> exact List.cons_ne_nil _ _
  | _ => exact List.cons_ne_nil _ _

/-- **Only an input statement without targets leaves nothing.** -/
theorem pieces_feed_eq_nil_iff : (r.feed l).1.pieces = [] ↔ l.isEmptyInput = true := by
  rw [pieces_feed, convertLine, SourceLine.isEmptyInput_iff]
  cases hkind : l.kind? with
  | none => simp
  | some kind =>
    by_cases hinput : kind = .input
    · simp [hinput, pieces_input_eq_nil_iff]
    · simp [hinput, pieces_feedKind_ne_nil]

/-- A routine has a line of code for each of its lines but the input statements without targets. -/
theorem countP_le_length_feedAll (ls : List SourceLine) :
    ls.countP (!·.isEmptyInput) ≤ (r.feedAll ls).1.pieces.length := by
  induction ls generalizing r with
  | nil => exact Nat.le_refl _
  | cons l ls ih =>
    have hstep : (if !l.isEmptyInput then 1 else 0) ≤ (r.feed l).1.pieces.length := by
      split
      · rename_i h
        refine List.length_pos_iff.2 fun hnil => ?_
        simp [(r.pieces_feed_eq_nil_iff l).1 hnil] at h
      · exact Nat.zero_le _
    simp only [feedAll, Written.pieces_append, List.length_append, List.countP_cons]
    rw [Nat.add_comm]
    exact Nat.add_le_add hstep (ih _)

end Routine

/-- **A line leaves whole lines, or nothing if it is an input statement without targets.**  Over
the lines that a pass is fed this gives at least one line of code for each of the others. -/
theorem convertLine_leaves_lines (cx : LineContext) (l : SourceLine) (depth : Nat) (p : Pass)
    (ls : List SourceLine) :
    let code := (cx.convertLine l depth).1.code
    (IsLines code ↔ l.isEmptyInput = false) ∧ (code = [] ↔ l.isEmptyInput = true) ∧
      p.writer.text.count '\n' + ls.countP (!·.isEmptyInput) ≤
        (p.feedAll ls).writer.text.count '\n' := by
  have hrun : p.writer.text.count '\n' + ls.countP (!·.isEmptyInput) ≤
      (p.feedAll ls).writer.text.count '\n' := by
    rw [Pass.feedAll_eq, Pass.text_after, List.count_append]
    exact Nat.add_le_add_left ((p.routine.countP_le_length_feedAll ls).trans
      (length_le_count_render _)) _
  rw [LineContext.convertLine_eq]
  change (IsLines (render _) ↔ _) ∧ (render _ = [] ↔ _) ∧ _
  cases hempty : l.isEmptyInput with
  | true =>
    have hnil := ((cx.routine depth).pieces_feed_eq_nil_iff l).2 hempty
    simp [hnil, IsLines, hrun]
  | false =>
    have hne : ((cx.routine depth).feed l).1.pieces ≠ [] := fun hnil => by
      simp [((cx.routine depth).pieces_feed_eq_nil_iff l).1 hnil] at hempty
    have hlines := isLines_render hne
    simp [hlines, hlines.1, hrun]

/-- An input statement without targets disappears, and a declaration without names does not. -/
theorem input_without_targets_disappears :
    let p := Pass.start ⟨false⟩ .empty
    (sourceLines 1 "Leer".toList).map (·.kind?) = [some .input] ∧
      (p.feedAll (sourceLines 1 "Leer".toList)).writer.text = [] ∧
      (p.feedAll (sourceLines 1 "Definir".toList)).writer.text = ['\n'] := by
  decide +kernel

end Pseudocode
