import Pseudocode.Proofs.Pass.Routine

/-!
# The pass over the main program

The pass goes over the main program once, and a start marker inside it ends the routine that is open
and begins another one.  What it writes is what the routines write that the lines fall into when
they are cut at the start markers, each converted by itself.

* `MainPass.run_open` : **the pass from an open routine on.**
* `MainPass.convert_eq`, `MainPass.convert_concat_eq` : the whole pass, without and with an end.
-/

namespace Pseudocode

namespace MainPass

/-- The lines that open a routine. -/
def openingLines (start : SourceLine) : Written :=
  .code [.line 0 ("// Algoritmo: ".toList ++ start.programName),
    .line 0 ("function ".toList ++ start.programName ++ "() \x7b".toList)]

/-- What is written from an open routine on: the rest of it, and the routines after it. -/
def writtenFrom (r : Routine) (ls : List SourceLine) : Written :=
  (r.feedBodies (Program.cutAtStarts ls).1).1 ++
    ((r.feedBodies (Program.cutAtStarts ls).1).2.close.1 ++
      ((Program.cutAtStarts ls).2.map MainRoutine.convert).foldr (· ++ ·) .empty)

/-- The name of the last routine that the lines start, the given one if they start none. -/
def nameAfter (name : List Char) (ls : List SourceLine) : List Char :=
  ((Program.cutAtStarts ls).2.getLast?.map (·.start.programName)).getD name

theorem convert_eq_opening (start : SourceLine) (ls : List SourceLine) :
    MainRoutine.convert ⟨start, (Program.cutAtStarts ls).1⟩ ++
        ((Program.cutAtStarts ls).2.map MainRoutine.convert).foldr (· ++ ·) .empty =
      openingLines start ++ writtenFrom (.start 1) ls := by
  simp only [MainRoutine.convert, openingLines, writtenFrom, Written.append_assoc]

variable {m : MainPass} {l : SourceLine} {ls : List SourceLine}

theorem writtenFrom_nil (r : Routine) : writtenFrom r [] = r.close.1 := by
  simp only [writtenFrom, Program.cutAtStarts, Routine.feedBodies, List.map_nil, List.foldr_nil,
    Written.append_empty]
  rfl

/-- The routine ends at a start marker, and the next one starts from nothing. -/
theorem writtenFrom_start (r : Routine) (hstart : l.isProgramStart = true) (ls : List SourceLine) :
    writtenFrom r (l :: ls) = r.close.1 ++ (openingLines l ++ writtenFrom (.start 1) ls) := by
  rw [← convert_eq_opening]
  simp only [writtenFrom, Program.cutAtStarts, hstart, if_true, Routine.feedBodies, List.map_cons,
    List.foldr_cons]
  rfl

theorem writtenFrom_body (r : Routine) (hstart : l.isProgramStart = false)
    (ls : List SourceLine) :
    writtenFrom r (l :: ls) = (r.feedBody l).1 ++ writtenFrom (r.feedBody l).2 ls := by
  simp only [writtenFrom, Program.cutAtStarts, hstart, Bool.false_eq_true, if_false,
    Routine.feedBodies, Written.append_assoc]

theorem nameAfter_start (name : List Char) (hstart : l.isProgramStart = true)
    (ls : List SourceLine) : nameAfter name (l :: ls) = nameAfter l.programName ls := by
  simp only [nameAfter, Program.cutAtStarts, hstart, if_true, List.getLast?_cons]
  cases (Program.cutAtStarts ls).2.getLast? <;> rfl

theorem nameAfter_body (name : List Char) (hstart : l.isProgramStart = false)
    (ls : List SourceLine) : nameAfter name (l :: ls) = nameAfter name ls := by
  simp [nameAfter, Program.cutAtStarts, hstart]

theorem finish_of_isOpen (h : m.isOpen = true) : m.finish = m.toPass.closeRoutine := if_pos h

/-- A routine is started anew, whatever the pass was in. -/
theorem begin_eq (m : MainPass) (l : SourceLine) :
    m.begin l = ⟨m.finish.after (openingLines l, .start 1), l.programName, true⟩ := by
  simp [begin, Pass.after, LineContext.after, LineContext.reportAll, openingLines, Written.code,
    CodeWriter.line, CodeWriter.raw, CodeWriter.setDepth, Routine.start]

theorem step_body (m : MainPass) (hstart : l.isProgramStart = false)
    (hend : l.isProgramEnd = false) :
    m.step l = { m with toPass := m.toPass.after (m.toPass.routine.feedBody l) } := by
  rw [← Pass.feedBody_eq]
  simp only [step, Pass.feedBody, hstart, hend, Bool.false_eq_true, if_false]
  split <;> rfl

theorem step_start (m : MainPass) (hstart : l.isProgramStart = true) : m.step l = m.begin l := by
  have hcomment : l.isComment = false := by
    simp only [SourceLine.isProgramStart, Bool.and_eq_true, Bool.not_eq_true'] at hstart
    exact hstart.1
  simp [step, hcomment, hstart]

theorem step_end (m : MainPass) (hcomment : l.isComment = false)
    (hstart : l.isProgramStart = false) (hend : l.isProgramEnd = true) :
    m.step l = { m with toPass := m.toPass.closeRoutine, isOpen := false } := by
  simp [step, hcomment, hstart, hend]

/-- **The pass from an open routine on.**  It ends the routine at the next start marker or behind
the last line, and what it writes does not depend on what was written before. -/
theorem run_open (hopen : m.isOpen = true) (hends : ∀ l ∈ ls, l.isProgramEnd = false) :
    (m.run ls).isOpen = true ∧ (m.run ls).name = nameAfter m.name ls ∧
      ∃ r, (m.run ls).finish = m.toPass.after (writtenFrom m.toPass.routine ls, r) := by
  induction ls generalizing m with
  | nil =>
    refine ⟨hopen, rfl, (m.toPass.routine.close).2, ?_⟩
    rw [writtenFrom_nil]
    exact (finish_of_isOpen hopen).trans m.toPass.closeRoutine_eq
  | cons l ls ih =>
    have hrun : m.run (l :: ls) = (m.step l).run ls := rfl
    obtain ⟨hend, hends⟩ := List.forall_mem_cons.1 hends
    rw [hrun]
    cases hstart : l.isProgramStart with
    | true =>
      rw [step_start m hstart, begin_eq, nameAfter_start _ hstart, writtenFrom_start _ hstart]
      obtain ⟨hopen', hname, r, hfinish⟩ := ih (m := ⟨m.finish.after (openingLines l, .start 1),
        l.programName, true⟩) rfl hends
      refine ⟨hopen', hname, r, hfinish.trans ?_⟩
      rw [Pass.routine_after, finish_of_isOpen hopen, Pass.closeRoutine_eq, Pass.after_after,
        Pass.after_after, ← Written.append_assoc]
    | false =>
      rw [step_body m hstart hend, nameAfter_body _ hstart, writtenFrom_body _ hstart]
      obtain ⟨hopen', hname, r, hfinish⟩ :=
        ih (m := { m with toPass := m.toPass.after (m.toPass.routine.feedBody l) }) hopen hends
      refine ⟨hopen', hname, r, hfinish.trans ?_⟩
      rw [Pass.routine_after, Pass.after_after]

variable {start ending : SourceLine} (opts : Options) (diag : Diagnostics)

theorem run_cons_start (hstart : start.isProgramStart = true) (ls : List SourceLine) :
    (MainPass.start opts diag).run (start :: ls) =
      run ⟨(Pass.start opts diag).after (openingLines start, .start 1), start.programName,
        true⟩ ls := by
  have hrun : (MainPass.start opts diag).run (start :: ls) =
      ((MainPass.start opts diag).step start).run ls :=
    rfl
  rw [hrun, step_start _ hstart, begin_eq]
  rfl

/-- **The pass over a main program without an end.** -/
theorem convert_eq (hstart : start.isProgramStart = true)
    (hends : ∀ l ∈ ls, l.isProgramEnd = false) :
    convert opts diag (start :: ls) =
      ((render (openingLines start ++ writtenFrom (.start 1) ls).pieces,
          nameAfter start.programName ls),
        diag.reportAll opts.strict (openingLines start ++ writtenFrom (.start 1) ls).notices) := by
  obtain ⟨-, hname, r, hfinish⟩ := run_open (m := ⟨(Pass.start opts diag).after
    (openingLines start, .start 1), start.programName, true⟩) rfl hends
  simp only [convert, run_cons_start opts diag hstart, hname, hfinish, Pass.routine_after,
    Pass.after_after]
  rfl

/-- **The pass over a main program with an end,** at which the routine is closed as behind the last
line. -/
theorem convert_concat_eq (hstart : start.isProgramStart = true)
    (hends : ∀ l ∈ ls, l.isProgramEnd = false) (hcomment : ending.isComment = false)
    (hending : ending.isProgramStart = false) (hend : ending.isProgramEnd = true) :
    convert opts diag (start :: (ls ++ [ending])) = convert opts diag (start :: ls) := by
  obtain ⟨hopen, -, -⟩ := run_open (m := ⟨(Pass.start opts diag).after
    (openingLines start, .start 1), start.programName, true⟩) rfl hends
  have hrun (m : MainPass) : m.run (ls ++ [ending]) = (m.run ls).step ending :=
    List.foldl_append
  simp only [convert, run_cons_start opts diag hstart, hrun,
    step_end _ hcomment hending hend, finish_of_isOpen hopen]
  rfl

end MainPass

end Pseudocode
