import Pseudocode.Proofs.Pass.Routine

/-!
# Closing what is open

At the end of a routine the open blocks are reported and the open levels are closed.  The two need
not be equally many: a block for which no level is left writes nothing, and a level for which no
block is left is closed by a plain brace.  Otherwise blocks and levels are paired from the inside
out, and the line that closes a level is that of its block.

* `Routine.closerAt` : the line that closes a level.
* `Routine.closeAll_eq` : **the lines that are written, level by level.**
* `unclosedProblem` : how an open block is reported.
* `Pass.closeBlocks_exact` : **the end of a routine closes exactly what is open.**
-/

namespace Pseudocode

namespace Routine

/-! ### Lines -/

/-- One line for each level from a depth down to the body of a routine, innermost first; `code`
gives the lines by their distance from the innermost one. -/
def closingLines (code : Nat → List Char) (depth : Nat) : List Piece :=
  (List.range (depth - 1)).map fun i => .line (depth - 1 - i) (code i)

theorem length_closingLines (code : Nat → List Char) (depth : Nat) :
    (closingLines code depth).length = depth - 1 := by
  rw [closingLines, List.length_map, List.length_range]

theorem closingLines_getElem? (code : Nat → List Char) {depth i : Nat} (h : i < depth - 1) :
    (closingLines code depth)[i]? = some (.line (depth - 1 - i) (code i)) := by
  rw [closingLines, List.getElem?_map, List.getElem?_range h]
  rfl

theorem closingLines_succ (code : Nat → List Char) (depth : Nat) :
    closingLines code (depth + 2) =
      .line (depth + 1) (code 0) :: closingLines (fun i => code (i + 1)) (depth + 1) := by
  have hlevel (i : Nat) : depth + 2 - 1 - (i + 1) = depth + 1 - 1 - i := by omega
  rw [closingLines, closingLines, show depth + 2 - 1 = depth + 1 - 1 + 1 by omega,
    List.range_succ_eq_map, List.map_cons, List.map_map]
  refine congrArg _ (List.map_congr_left fun i _ => ?_)
  exact congrArg (Piece.line · (code (i + 1))) (hlevel i)

/-- The line that closes the level at the given distance from the innermost one, where the given
blocks are open, innermost first.  Only a loop that waits for its condition is closed by one. -/
def closerAt (blocks : List OpenBlock) (i : Nat) : List Char :=
  if blocks[i]?.any (·.kind = .repeatLoop) then "\x7d while (false);".toList else "\x7d".toList

theorem closerAt_nil (i : Nat) : closerAt [] i = "\x7d".toList := if_neg Bool.false_ne_true

theorem closerAt_cons_zero (b : OpenBlock) (bs : List OpenBlock) :
    closerAt (b :: bs) 0 = forcedCloser b.kind := by
  obtain ⟨kind, line⟩ := b
  cases kind with
  | repeatLoop => exact if_pos rfl
  | _ => exact if_neg Bool.false_ne_true

theorem closersFrom_eq (depth : Nat) :
    closersFrom depth = closingLines (fun _ => "\x7d".toList) depth := by
  fun_induction closersFrom depth with
  | case1 => rfl
  | case2 => rfl
  | case3 d ih => rw [closingLines_succ, ih]

/-- **The lines that close blocks and levels.**  Blocks and levels go together from the inside out,
and there is one line for each level above the body, however many blocks there are. -/
theorem closeAll_eq (blocks : List OpenBlock) (depth : Nat) :
    closeAll blocks depth = closingLines (closerAt blocks) depth := by
  fun_induction closeAll blocks depth with
  | case1 depth =>
    rw [closersFrom_eq]
    exact congrArg (closingLines · depth) (funext fun i => (closerAt_nil i).symm)
  | case2 b bs ih => exact ih
  | case3 b bs ih => exact ih
  | case4 b bs d ih =>
    rw [closingLines_succ, closerAt_cons_zero, ih]
    rfl

/-- More levels than blocks, and more blocks than levels. -/
example : closeAll [⟨.repeatLoop, 7⟩, ⟨.branch, 3⟩] 5 =
      [.line 4 "\x7d while (false);".toList, .line 3 "\x7d".toList, .line 2 "\x7d".toList,
        .line 1 "\x7d".toList] ∧
    closeAll [⟨.branch, 7⟩, ⟨.repeatLoop, 3⟩, ⟨.repeatLoop, 2⟩] 3 =
      [.line 2 "\x7d".toList, .line 1 "\x7d while (false);".toList] := by decide

theorem closeBlocks_eq_self {r : Routine} (hblocks : r.scope.blocks = []) (hdepth : r.depth ≤ 1) :
    r.closeBlocks = (.empty, r) := by
  obtain ⟨⟨names, blocks⟩, depth⟩ := r
  obtain rfl : blocks = [] := hblocks
  have hlines : closeAll [] depth = [] := by
    rw [closeAll_eq, ← List.length_eq_zero_iff, length_closingLines]
    exact Nat.sub_eq_zero_of_le hdepth
  simp only [closeBlocks, Scope.drain, hlines, Nat.min_eq_left hdepth]
  rfl

end Routine

/-! ### Reports -/

/-- The problem that is recorded for a block without a terminator: it names the block and the line
that opened it, and it is an error if the conversion is strict. -/
def unclosedProblem (strict : Bool) (b : OpenBlock) : Diagnostic where
  line := b.line
  code := b.kind.keyword
  message := "Línea " ++ toString b.line ++ ": " ++ "bloque '" ++ b.kind.keyword ++ "' sin cerrar"
  category := if strict then .syntactic else .warning
  suggestion := if strict then
    "Cierra cada bloque con su terminador, en orden inverso al de apertura" else none

theorem report_ofUnclosed (strict : Bool) (b : OpenBlock) :
    (Notice.ofUnclosed b).report strict = unclosedProblem strict b := by
  cases strict <;> rfl

/-- The record after the problems of some open blocks: all of them are errors in a strict conversion
and warnings in a lenient one. -/
theorem reportAll_ofUnclosed (strict : Bool) (d : Diagnostics) (bs : List OpenBlock) :
    let problems := bs.map (unclosedProblem strict)
    let messages := problems.map (·.message)
    d.reportAll strict (bs.map .ofUnclosed) =
      ⟨d.errors ++ (if strict then messages else []),
        d.warnings ++ (if strict then [] else messages), d.details ++ problems⟩ := by
  intro problems messages
  have hreports : (bs.map Notice.ofUnclosed).map (·.report strict) = problems := by
    rw [List.map_map]
    exact List.map_congr_left fun b _ => report_ofUnclosed strict b
  have hmessages : (bs.map Notice.ofUnclosed).map (·.message) = messages := by
    simp only [messages, ← hreports, List.map_map]
    rfl
  cases strict with
  | true =>
    have hall : (bs.map Notice.ofUnclosed).filter (fun n => (n.report true).isError) =
        bs.map .ofUnclosed := List.filter_eq_self.2 (List.forall_mem_map.2 fun _ _ => rfl)
    have hnone : (bs.map Notice.ofUnclosed).filter (fun n => !(n.report true).isError) = [] :=
      List.filter_eq_nil_iff.2 (List.forall_mem_map.2 fun _ _ => Bool.false_ne_true)
    simp [Diagnostics.reportAll, hall, hnone, hreports, hmessages]
  | false =>
    have hall : (bs.map Notice.ofUnclosed).filter (fun n => !(n.report false).isError) =
        bs.map .ofUnclosed := List.filter_eq_self.2 (List.forall_mem_map.2 fun _ _ => rfl)
    have hnone : (bs.map Notice.ofUnclosed).filter (fun n => (n.report false).isError) = [] :=
      List.filter_eq_nil_iff.2 (List.forall_mem_map.2 fun _ _ => Bool.false_ne_true)
    simp [Diagnostics.reportAll, hall, hnone, hreports, hmessages]

/-- **The end of a routine closes exactly what is open.**  Each open block is reported once, the
innermost first, and none is left.  Each level above the body is closed by one line, the innermost
first: by that of the block that goes with it, or by a brace if there are not so many blocks.  Where
nothing is open any more, nothing is written and nothing reported. -/
theorem Pass.closeBlocks_exact (p : Pass) :
    let depth := p.writer.depth
    let problems := p.scope.blocks.map (unclosedProblem p.opts.strict)
    let messages := problems.map (·.message)
    p.closeBlocks.diag =
      ⟨p.diag.errors ++ (if p.opts.strict then messages else []),
        p.diag.warnings ++ (if p.opts.strict then [] else messages),
        p.diag.details ++ problems⟩ ∧
    (∃ lines, p.closeBlocks.writer.text = p.writer.text ++ render lines ∧
      lines.length = depth - 1 ∧ ∀ i < depth - 1,
        lines[i]? = some (.line (depth - 1 - i) (Routine.closerAt p.scope.blocks i))) ∧
    (p.closeBlocks.scope = ⟨p.scope.names, []⟩ ∧ p.closeBlocks.writer.depth = min depth 1 ∧
      p.closeBlocks.opts = p.opts) ∧
    p.closeBlocks.closeBlocks = p.closeBlocks := by
  intro depth problems messages
  have hdiag : p.closeBlocks.diag =
      p.diag.reportAll p.opts.strict (p.scope.blocks.map .ofUnclosed) := by
    rw [closeBlocks_eq]
    rfl
  have htext : p.closeBlocks.writer.text =
      p.writer.text ++ render (Routine.closingLines (Routine.closerAt p.scope.blocks) depth) := by
    rw [closeBlocks_eq, text_after, ← Routine.closeAll_eq]
    rfl
  have hroutine : p.closeBlocks.routine = ⟨⟨p.scope.names, []⟩, min depth 1⟩ := by
    rw [closeBlocks_eq]
    rfl
  refine ⟨hdiag.trans (reportAll_ofUnclosed ..), ⟨_, htext, Routine.length_closingLines .., fun i =>
    Routine.closingLines_getElem? _⟩, ⟨congrArg Routine.scope hroutine,
      congrArg Routine.depth hroutine, ?_⟩, ?_⟩
  · rw [closeBlocks_eq]
    rfl
  · have hself : p.closeBlocks.routine.closeBlocks = (.empty, p.closeBlocks.routine) := by
      refine Routine.closeBlocks_eq_self ?_ ?_
      · rw [hroutine]
      · rw [hroutine]
        exact Nat.min_le_right depth 1
    calc p.closeBlocks.closeBlocks
        = p.closeBlocks.after p.closeBlocks.routine.closeBlocks := closeBlocks_eq _
      _ = p.closeBlocks.after (.empty, p.closeBlocks.routine) := by rw [hself]
      _ = p.closeBlocks := after_empty _

end Pseudocode
