import Mathlib.Data.List.Perm.Basic
import Pseudocode.Proofs.Program.Parts
import Pseudocode.Proofs.Routine.Notices
import Pseudocode.Proofs.SourceLine

/-!
# The routines of a program

The routines of a program are its functions and its main routines.  Each of them is a run over the
lines of its body, and what a conversion reports is put together from what the runs report.

* `functionRuns`, `Program.runs` : the routines of a program, in the order in which they are
  converted.
* `Program.nodup_runs` : no line belongs to two routines.
* `Program.convert_unclosed` : **a conversion reports the blocks that its routines leave open.**
* `Program.convert_notices` : **what the notices of a conversion are about.**
-/

namespace Pseudocode

/-- A routine as it is converted: the state in which its body starts, and the lines of its body. -/
structure Run where
  /-- The state before the first line of the body. -/
  start : Routine
  /-- The lines of the body, comments included. -/
  lines : List SourceLine

namespace Run

/-- The state after the last line of the body. -/
def final (run : Run) : Routine := (run.start.feedBodies run.lines).2

/-- The blocks that are open at the end of the body, innermost first. -/
def leftOpen (run : Run) : List OpenBlock := run.final.scope.blocks

end Run

/-- The line neither starts nor ends a function. -/
def SourceLine.isInner (l : SourceLine) : Bool := !l.isFunctionStart && !l.isFunctionEnd

/-- The functions among the lines outside the main routine.  The body of a function goes on to the
next line that starts or ends a function. -/
def functionRuns : List SourceLine → List Run
  | [] => []
  | l :: ls =>
    if l.isFunctionStart then
      ⟨(OpenFunction.start l).2.routine, ls.takeWhile (·.isInner)⟩ :: functionRuns ls
    else functionRuns ls

/-- The routines of a program: its functions and then its main routines. -/
def Program.runs (p : Program) : List Run :=
  functionRuns p.outside ++ p.routines.map fun s => ⟨.start 1, s.body⟩

/-! ### The lines of the routines -/

theorem OpenFunction.start_blocks (l : SourceLine) : (start l).2.routine.scope.blocks = [] := by
  unfold start
  split <;> rfl

theorem functionRuns_blocks (ls : List SourceLine) :
    ∀ run ∈ functionRuns ls, run.start.scope.blocks = [] := by
  induction ls with
  | nil => exact List.forall_mem_nil _
  | cons l ls ih =>
    rw [functionRuns]
    split
    · exact List.forall_mem_cons.2 ⟨OpenFunction.start_blocks l, ih⟩
    · exact ih

theorem Program.runs_blocks (p : Program) : ∀ run ∈ p.runs, run.start.scope.blocks = [] := by
  refine List.forall_mem_append.2 ⟨functionRuns_blocks p.outside, fun run hrun => ?_⟩
  obtain ⟨s, -, rfl⟩ := List.mem_map.1 hrun
  rfl

/-- The bodies of functions stand behind the lines that mark no function. -/
theorem functionRuns_sublist (ls : List SourceLine) :
    ((functionRuns ls).flatMap (·.lines)).Sublist (ls.dropWhile (·.isInner)) := by
  induction ls with
  | nil => exact List.Sublist.slnil
  | cons l ls ih =>
    have hdrop : (ls.dropWhile (·.isInner)).Sublist ls := List.dropWhile_sublist _
    rw [functionRuns]
    split
    · rename_i hstart
      have hinner : l.isInner = false := by simp [SourceLine.isInner, hstart]
      have hlines := (List.Sublist.refl (ls.takeWhile (·.isInner))).append ih
      rw [List.takeWhile_append_dropWhile] at hlines
      rw [List.dropWhile_cons_of_neg (by simp [hinner])]
      exact hlines.cons l
    · rw [List.dropWhile_cons]
      split
      · exact ih
      · exact (ih.trans hdrop).cons l

theorem Program.cutAtStarts_sublist (ls : List SourceLine) :
    ((cutAtStarts ls).1 ++ (cutAtStarts ls).2.flatMap (·.body)).Sublist ls := by
  induction ls with
  | nil => exact List.Sublist.slnil
  | cons l ls ih =>
    simp only [cutAtStarts]
    split
    · exact ih.cons l
    · exact ih.cons_cons l

namespace Program

variable {lines : List SourceLine} {p : Program}

/-- Where the bodies of the routines stand: those of the functions outside the main program, and
those of the main routines in it, all in order. -/
theorem exists_sublist_of_ofLines? (h : ofLines? lines = some p) :
    ∃ outside main, (outside ++ main).Subperm lines ∧ outside.Sublist lines ∧ main.Sublist lines ∧
      ((functionRuns p.outside).flatMap (·.lines)).Sublist outside ∧
      (p.routines.flatMap (·.body)).Sublist main := by
  obtain ⟨before, start, main, behind, rfl, houtside, hroutines, -⟩ :=
    exists_eq_append_of_ofLines? h
  have htail : (main ++ behind.tail).Sublist (start :: (main ++ behind)) :=
    ((List.Sublist.refl main).append (List.tail_sublist behind)).cons start
  refine ⟨before ++ behind.tail, main, ?_, ?_, ?_, ?_, ?_⟩
  · rw [List.append_assoc, List.subperm_append_left]
    exact List.perm_append_comm.subperm.trans htail.subperm
  · exact (List.Sublist.refl before).append ((List.sublist_append_right _ _).trans htail)
  · exact ((List.sublist_append_left _ _).trans htail).trans (List.sublist_append_right _ _)
  · rw [← houtside]
    exact (functionRuns_sublist _).trans (List.dropWhile_sublist _)
  · rw [hroutines]
    exact cutAtStarts_sublist main

theorem flatMap_lines_map_body (routines : List MainRoutine) :
    (routines.map fun s => (⟨.start 1, s.body⟩ : Run)).flatMap (·.lines) =
      routines.flatMap (·.body) :=
  List.flatMap_map _ _ routines

/-- **No line belongs to two routines.** -/
theorem nodup_runs (h : ofLines? lines = some p) (hlines : SourceLine.Ascending lines) :
    ((p.runs.flatMap (·.lines)).map (·.num)).Nodup := by
  obtain ⟨outside, main, ⟨ls, hperm, hsub⟩, -, -, hfunctions, hmain⟩ :=
    exists_sublist_of_ofLines? h
  have hparts : ((outside ++ main).map (·.num)).Nodup :=
    (hperm.map _).nodup_iff.1 ((hsub.map _).nodup hlines.nodup_num)
  rw [runs, List.flatMap_append, flatMap_lines_map_body]
  exact ((hfunctions.append hmain).map _).nodup hparts

theorem runs_sublist (h : ofLines? lines = some p) : ∀ run ∈ p.runs, run.lines.Sublist lines := by
  obtain ⟨outside, main, -, houtside, hinside, hfunctions, hmain⟩ := exists_sublist_of_ofLines? h
  rw [← flatMap_lines_map_body] at hmain
  have hmem : ∀ {runs : List Run} {run : Run}, run ∈ runs →
      run.lines.Sublist (runs.flatMap (·.lines)) := fun hrun =>
    List.sublist_flatten_of_mem (List.mem_map_of_mem hrun)
  refine List.forall_mem_append.2 ⟨fun run hrun => ?_, fun run hrun => ?_⟩
  · exact ((hmem hrun).trans hfunctions).trans houtside
  · exact ((hmem hrun).trans hmain).trans hinside

end Program

/-! ### What the routines report -/

/-- The rest of the body of a function that is open before the given lines. -/
def openRun (f : Option OpenFunction) (ls : List SourceLine) : List Run :=
  f.toList.map fun f => ⟨f.routine, ls.takeWhile (·.isInner)⟩

/-- A line reports the blocks of the function that it ends, and leaves the functions that follow to
the lines that follow. -/
theorem functionStep_unclosed (f : Option OpenFunction) (l : SourceLine) (ls : List SourceLine) :
    (functionStep f l).1.unclosed ++
      (openRun (functionStep f l).2 ls ++ functionRuns ls).flatMap Run.leftOpen =
      (openRun f (l :: ls) ++ functionRuns (l :: ls)).flatMap Run.leftOpen := by
  obtain hstart | ⟨hstart, hend⟩ | ⟨hstart, hend⟩ := l.function_cases
  · have hopening : (OpenFunction.start l).1.unclosed = [] :=
      Written.unclosed_eq_nil fun n hn => ⟨l, OpenFunction.start_quotes l n hn⟩
    rw [functionStep_start f hstart]
    cases f with
    | none => simp [openRun, functionRuns, hstart, hopening]
    | some f =>
      simp [openRun, functionRuns, hstart, hopening, SourceLine.isInner,
        f.closeUnended_unclosed, Run.leftOpen, Run.final, Routine.feedBodies]
  · cases f with
    | none =>
      have hstray : Written.unclosed ⟨[], [l.notice .strayFunctionEnd]⟩ = [] := rfl
      simp [functionStep_strayEnd hstart hend, openRun, functionRuns, hstart, hstray]
    | some f =>
      simp [functionStep_end hstart hend, openRun, functionRuns, hstart, hend, SourceLine.isInner,
        f.close_unclosed, Run.leftOpen, Run.final, Routine.feedBodies]
  · cases f with
    | none => simp [functionStep_outside hstart hend, openRun, functionRuns, hstart]
    | some f =>
      -- the line belongs to the body, and the run over the rest of it ends in the same state
      simp [functionStep_body hstart hend, openRun, functionRuns, hstart, hend, SourceLine.isInner,
        Routine.feedBody_unclosed, Run.leftOpen, Run.final, Routine.feedBodies]

theorem functionSteps_unclosed (f : Option OpenFunction) (ls : List SourceLine) :
    ((functionSteps f ls).1 ++
      ((functionSteps f ls).2.map OpenFunction.closeUnended).getD .empty).unclosed =
      (openRun f ls ++ functionRuns ls).flatMap Run.leftOpen := by
  induction ls generalizing f with
  | nil =>
    cases f with
    | none => rfl
    | some f =>
      simp [functionSteps, openRun, functionRuns, f.closeUnended_unclosed, Run.leftOpen, Run.final,
        Routine.feedBodies]
  | cons l ls ih =>
    rw [← functionStep_unclosed, ← ih]
    simp [functionSteps]

theorem convertFunctions_unclosed (ls : List SourceLine) :
    (convertFunctions ls).unclosed = (functionRuns ls).flatMap Run.leftOpen :=
  functionSteps_unclosed none ls

theorem unclosed_foldr_append (ws : List Written) :
    (ws.foldr (· ++ ·) Written.empty).unclosed = ws.flatMap Written.unclosed := by
  induction ws with
  | nil => rfl
  | cons w ws ih => simp [ih]

/-- **A conversion reports the blocks that its routines leave open,** one routine after the
other. -/
theorem Program.convert_unclosed (p : Program) :
    p.convert.unclosed = p.runs.flatMap Run.leftOpen := by
  have hmissing : Written.unclosed ⟨[], p.missingEnd.toList.map .ofMissingEnd⟩ = [] := by
    cases p.missingEnd <;> rfl
  have hmain : (p.routines.map MainRoutine.convert).flatMap Written.unclosed =
      (p.routines.map fun s => (⟨.start 1, s.body⟩ : Run)).flatMap Run.leftOpen := by
    rw [List.flatMap_map, List.flatMap_map]
    exact List.flatMap_congr fun s _ => s.convert_unclosed
  simp only [Program.convert, runs, Written.unclosed_append, Written.unclosed_code, hmissing,
    convertFunctions_unclosed, unclosed_foldr_append, hmain, List.nil_append, List.append_nil,
    List.flatMap_append]

/-! ### What the notices are about -/

/-- The notice quotes one of the lines, or it reports a block that is left open. -/
def Notice.Concerns (n : Notice) (ls : List SourceLine) : Prop :=
  (∃ l ∈ ls, n.Quotes l) ∨ ∃ b, n = .ofUnclosed b

theorem Notice.Concerns.mono {n : Notice} {ls ls' : List SourceLine} (h : n.Concerns ls)
    (hls : ls ⊆ ls') : n.Concerns ls' := by
  obtain ⟨l, hl, hquotes⟩ | h := h
  · exact .inl ⟨l, hls hl, hquotes⟩
  · exact .inr h

theorem concerns_map_ofUnclosed (blocks : List OpenBlock) (ls : List SourceLine) :
    ∀ n ∈ blocks.map Notice.ofUnclosed, n.Concerns ls := by
  intro n hn
  obtain ⟨b, -, rfl⟩ := List.mem_map.1 hn
  exact .inr ⟨b, rfl⟩

theorem MainRoutine.convert_concerns (s : MainRoutine) :
    ∀ n ∈ s.convert.notices, n.Concerns s.body := by
  rw [s.convert_notices]
  refine List.forall_mem_append.2 ⟨fun n hn => ?_, concerns_map_ofUnclosed _ _⟩
  exact .inl ((Routine.start 1).feedBodies_quotes s.body n hn)

theorem OpenFunction.start_header (l : SourceLine) : (start l).2.header = l := by
  unfold start
  split <;> rfl

theorem OpenFunction.closeUnended_concerns {f : OpenFunction} {ls : List SourceLine}
    (hf : f.header ∈ ls) : ∀ n ∈ f.closeUnended.notices, n.Concerns ls := by
  rw [closeUnended, Written.notices_append, close_notices]
  refine List.forall_mem_append.2 ⟨fun n hn => ?_, concerns_map_ofUnclosed _ _⟩
  obtain rfl := List.mem_singleton.1 hn
  exact .inl ⟨f.header, hf, f.header.notice_quotes rfl⟩

theorem closeUnended_getD_concerns {f : Option OpenFunction} {ls : List SourceLine}
    (hf : ∀ g ∈ f, g.header ∈ ls) :
    ∀ n ∈ ((f.map OpenFunction.closeUnended).getD .empty).notices, n.Concerns ls := by
  cases f with
  | none => exact List.forall_mem_nil _
  | some f => exact OpenFunction.closeUnended_concerns (hf f rfl)

/-- A line outside the main routine reports on itself, on the header of the function that is open,
or on blocks; the header of the function that is open after it is an earlier line or the line. -/
theorem functionStep_concerns {f : Option OpenFunction} {l : SourceLine} {ls : List SourceLine}
    (hf : ∀ g ∈ f, g.header ∈ ls) (hl : l ∈ ls) :
    (∀ n ∈ (functionStep f l).1.notices, n.Concerns ls) ∧
      ∀ g ∈ (functionStep f l).2, g.header ∈ ls := by
  have hself : ∀ n : Notice, n.Quotes l → n.Concerns ls := fun n hn => .inl ⟨l, hl, hn⟩
  obtain hstart | ⟨hstart, hend⟩ | ⟨hstart, hend⟩ := l.function_cases
  · rw [functionStep_start f hstart]
    refine ⟨List.forall_mem_append.2 ⟨closeUnended_getD_concerns hf, fun n hn => ?_⟩,
      fun g hg => ?_⟩
    · exact hself n (OpenFunction.start_quotes l n hn)
    · obtain rfl := Option.some.inj hg
      rwa [OpenFunction.start_header]
  · cases f with
    | none =>
      rw [functionStep_strayEnd hstart hend]
      refine ⟨fun n hn => ?_, fun g hg => by cases hg⟩
      obtain rfl := List.mem_singleton.1 hn
      exact hself _ (l.notice_quotes rfl)
    | some f =>
      rw [functionStep_end hstart hend, f.close_notices]
      exact ⟨concerns_map_ofUnclosed _ _, fun g hg => by cases hg⟩
  · cases f with
    | none =>
      rw [functionStep_outside hstart hend]
      exact ⟨List.forall_mem_nil _, fun g hg => by cases hg⟩
    | some f =>
      rw [functionStep_body hstart hend]
      refine ⟨fun n hn => hself n (f.routine.feedBody_quotes l n hn), fun g hg => ?_⟩
      obtain rfl := Option.some.inj hg
      exact hf f rfl

theorem functionSteps_concerns {f : Option OpenFunction} {ls all : List SourceLine}
    (hf : ∀ g ∈ f, g.header ∈ all) (hls : ls ⊆ all) :
    (∀ n ∈ (functionSteps f ls).1.notices, n.Concerns all) ∧
      ∀ g ∈ (functionSteps f ls).2, g.header ∈ all := by
  induction ls generalizing f with
  | nil => exact ⟨List.forall_mem_nil _, hf⟩
  | cons l ls ih =>
    obtain ⟨hl, hls⟩ := List.cons_subset.1 hls
    obtain ⟨hfirst, hstep⟩ := functionStep_concerns hf hl
    obtain ⟨hrest, hlast⟩ := ih hstep hls
    exact ⟨List.forall_mem_append.2 ⟨hfirst, hrest⟩, hlast⟩

theorem convertFunctions_concerns (ls : List SourceLine) :
    ∀ n ∈ (convertFunctions ls).notices, n.Concerns ls := by
  obtain ⟨hsteps, hlast⟩ :=
    functionSteps_concerns (f := none) (fun g hg => by cases hg) (List.Subset.refl ls)
  exact List.forall_mem_append.2 ⟨hsteps, closeUnended_getD_concerns hlast⟩

theorem mem_notices_foldr_append {ws : List Written} {n : Notice} :
    n ∈ (ws.foldr (· ++ ·) Written.empty).notices ↔ ∃ w ∈ ws, n ∈ w.notices := by
  induction ws with
  | nil => simp
  | cons w ws ih => simp [ih]

/-- What the notices of a program are: that its end is missing, and apart from that notices on its
lines and on blocks. -/
theorem Program.convert_notices {p : Program} {lines : List SourceLine}
    (h : ofLines? lines = some p) :
    ∃ ns, p.convert.notices = p.missingEnd.toList.map .ofMissingEnd ++ ns ∧
      ∀ n ∈ ns, n.Concerns lines := by
  obtain ⟨houtside, hroutines⟩ := subset_of_ofLines? h
  refine ⟨(convertFunctions p.outside).notices ++
    ((p.routines.map MainRoutine.convert).foldr (· ++ ·) Written.empty).notices, ?_, ?_⟩
  · simp only [Program.convert, Written.notices_append, Written.notices_code, List.append_nil,
      List.append_assoc]
  · refine List.forall_mem_append.2 ⟨fun n hn => ?_, fun n hn => ?_⟩
    · exact (convertFunctions_concerns p.outside n hn).mono houtside
    · obtain ⟨w, hw, hn⟩ := mem_notices_foldr_append.1 hn
      obtain ⟨s, hs, rfl⟩ := List.mem_map.1 hw
      exact (s.convert_concerns n hn).mono (hroutines s hs).body_subset

end Pseudocode
