import Pseudocode.Proofs.Pass.Convert
import Pseudocode.Proofs.Program.Parts
import Pseudocode.Proofs.Routine.Step
import Pseudocode.Proofs.SourceLine

/-!
# Well-nested programs

A strict conversion succeeds exactly on the well-nested programs.  `WellNestedProgram` says what
these are in terms of the lines alone: markers, functions and words of block events.

* `feedBodies_faultless_iff` : a run over the body of a routine reports no fault and leaves no block
  open exactly if the stack of its blocks accepts the events of the body.
* `convertFunctions_faultless_iff` : the same for the lines outside the main routine.
* `convert_strict_success_iff` : **strict conversion succeeds exactly on well-nested programs.**
-/

namespace Pseudocode

/-- The events of the lines of a routine; comments are skipped. -/
def blockEvents (ls : List SourceLine) : List BlockEvent :=
  (ls.filter (!·.isComment)).map (·.event)

/-- Lines that hold whole functions with well-nested bodies, and between them lines that neither
start nor end a function. -/
inductive WellNestedFunctions : List SourceLine → Prop
  | nil : WellNestedFunctions []
  | outside {l : SourceLine} {ls : List SourceLine} (hstart : l.isFunctionStart = false)
    (hend : l.isFunctionEnd = false) (hrest : WellNestedFunctions ls) :
    WellNestedFunctions (l :: ls)
  | function {header ending : SourceLine} {body ls : List SourceLine}
    (hheader : header.isFunctionStart = true)
    (hbody : ∀ l ∈ body, l.isFunctionStart = false ∧ l.isFunctionEnd = false)
    (hnested : WellNested none (blockEvents body)) (hending : ending.isFunctionEnd = true)
    (hrest : WellNestedFunctions ls) : WellNestedFunctions (header :: (body ++ ending :: ls))

/-- Lines with a start marker and an end marker after it, where the bodies of all main routines
between the two and all functions outside them are well nested. -/
def WellNestedProgram (lines : List SourceLine) : Prop :=
  ∃ before start body behind, Program.Delimits lines before start body behind ∧
    (∀ segment ∈ body.splitOnP (·.isProgramStart), WellNested none (blockEvents segment)) ∧
    WellNestedFunctions (before ++ behind)

/-! ### Bodies of routines -/

namespace Routine

/-- The kinds of the open blocks, innermost first. -/
def kinds (r : Routine) : List BlockKind := r.scope.blocks.map (·.kind)

theorem kinds_eq_nil_iff {r : Routine} : r.kinds = [] ↔ r.scope.blocks = [] := List.map_eq_nil_iff

/-- A line is converted without a fault, and the rest of the body is accepted after it, exactly if
the body is accepted from the line on. -/
theorem feedBody_accepts_iff (r : Routine) (l : SourceLine) (ls : List SourceLine) :
    (r.feedBody l).1.faults = [] ∧ Accepts (r.feedBody l).2.kinds (blockEvents ls) ↔
      Accepts r.kinds (blockEvents (l :: ls)) := by
  by_cases hc : l.isComment = true
  · simp [feedBody, blockEvents, hc]
  · have hkinds : (r.feed l).2.kinds = l.event.after r.kinds := by
      rw [kinds, feed_blocks, BlockEvent.map_kind_blocksAfter, kinds]
    have hfaults : (r.feed l).1.faults = [] ↔ l.event.Fits r.kinds := by
      rw [feed_faults, kinds, ← BlockEvent.fault?_eq_none_iff]
      simp [Scope.top?]
    simp [feedBody, blockEvents, hc, hkinds, hfaults, Accepts]

theorem feedBodies_faultless_iff (r : Routine) (ls : List SourceLine) :
    (r.feedBodies ls).1.faults = [] ∧ (r.feedBodies ls).2.kinds = [] ↔
      Accepts r.kinds (blockEvents ls) := by
  induction ls generalizing r with
  | nil => simp [feedBodies, blockEvents, Accepts]
  | cons l ls ih =>
    rw [← feedBody_accepts_iff, ← ih, ← and_assoc]
    simp [feedBodies]

end Routine

theorem MainRoutine.convert_faultless_iff (s : MainRoutine) :
    s.convert.faults = [] ↔ WellNested none (blockEvents s.body) := by
  rw [← accepts_nil_iff]
  refine Iff.trans ?_ ((Routine.start 1).feedBodies_faultless_iff s.body)
  simp [MainRoutine.convert, Routine.close_faults, Routine.kinds_eq_nil_iff]

/-! ### Functions -/

namespace OpenFunction

theorem start_faults (l : SourceLine) : (start l).1.faults = [] := by
  unfold start
  split <;> rfl

theorem start_kinds (l : SourceLine) : (start l).2.routine.kinds = [] := by
  unfold start
  split <;> rfl

theorem close_faultless_iff (f : OpenFunction) : f.close.faults = [] ↔ f.routine.kinds = [] := by
  have hdrained : f.routine.closeBlocks.2.scope.blocks = [] := rfl
  rw [Routine.kinds_eq_nil_iff]
  simp only [close]
  split <;> simp [Routine.closeBlocks_faults, Routine.close_faults, hdrained]

theorem closeUnended_faults_ne_nil (f : OpenFunction) : f.closeUnended.faults ≠ [] := by
  simp only [closeUnended, Written.faults_append]
  intro h
  cases (List.append_eq_nil_iff.1 h).1

end OpenFunction

/-- The lines end the function whose open blocks are given, and are well nested after it. -/
def FunctionCompletes (kinds : List BlockKind) (ls : List SourceLine) : Prop :=
  ∃ body ending rest, (∀ l ∈ body, l.isFunctionStart = false ∧ l.isFunctionEnd = false) ∧
    Accepts kinds (blockEvents body) ∧ ending.isFunctionEnd = true ∧ WellNestedFunctions rest ∧
    ls = body ++ ending :: rest

/-- What is required of the lines that follow, if `f` is the function that is open. -/
def FunctionsComplete : Option OpenFunction → List SourceLine → Prop
  | none, ls => WellNestedFunctions ls
  | some f, ls => FunctionCompletes f.routine.kinds ls

theorem wellNestedFunctions_cons_iff {l : SourceLine} {ls : List SourceLine} :
    WellNestedFunctions (l :: ls) ↔
      l.isFunctionStart = true ∧ FunctionCompletes [] ls ∨
      l.isFunctionStart = false ∧ l.isFunctionEnd = false ∧ WellNestedFunctions ls := by
  constructor
  · intro h
    cases h with
    | outside hstart hend hrest => exact .inr ⟨hstart, hend, hrest⟩
    | function hheader hbody hnested hending hrest =>
      exact .inl ⟨hheader, _, _, _, hbody, accepts_nil_iff.2 hnested, hending, hrest, rfl⟩
  · rintro (⟨hheader, body, ending, rest, hbody, hword, hending, hrest, rfl⟩ |
      ⟨hstart, hend, hrest⟩)
    · exact .function hheader hbody (accepts_nil_iff.1 hword) hending hrest
    · exact .outside hstart hend hrest

theorem functionCompletes_nil {kinds : List BlockKind} : ¬ FunctionCompletes kinds [] := by
  rintro ⟨body, ending, rest, -, -, -, -, h⟩
  cases body <;> cases h

/-- The first line ends the function, or it belongs to its body and is followed by the rest of
it. -/
theorem functionCompletes_cons_iff {r : Routine} {l : SourceLine} {ls : List SourceLine} :
    FunctionCompletes r.kinds (l :: ls) ↔
      l.isFunctionEnd = true ∧ r.kinds = [] ∧ WellNestedFunctions ls ∨
      (l.isFunctionStart = false ∧ l.isFunctionEnd = false) ∧
        (r.feedBody l).1.faults = [] ∧ FunctionCompletes (r.feedBody l).2.kinds ls := by
  constructor
  · rintro ⟨body, ending, rest, hbody, hword, hending, hrest, h⟩
    cases body with
    | nil =>
      cases h
      exact .inl ⟨hending, hword, hrest⟩
    | cons l' body =>
      cases h
      obtain ⟨hfaults, hword'⟩ := (r.feedBody_accepts_iff l body).2 hword
      exact .inr ⟨hbody l (by simp), hfaults, body, ending, rest,
        fun l' hl' => hbody l' (by simp [hl']), hword', hending, hrest, rfl⟩
  · rintro (⟨hending, hkinds, hrest⟩ |
      ⟨hl, hfaults, body, ending, rest, hbody, hword, hending, hrest, rfl⟩)
    · exact ⟨[], l, ls, by simp, hkinds, hending, hrest, rfl⟩
    · refine ⟨l :: body, ending, rest, ?_, (r.feedBody_accepts_iff l body).1 ⟨hfaults, hword⟩,
        hending, hrest, rfl⟩
      rintro l' (_ | ⟨_, hl'⟩)
      · exact hl
      · exact hbody l' hl'

/-- A line outside the main routine is converted without a fault, and the rest is well nested
after it, exactly if the lines are well nested from there on. -/
theorem functionStep_complete_iff (f : Option OpenFunction) (l : SourceLine)
    (ls : List SourceLine) :
    (functionStep f l).1.faults = [] ∧ FunctionsComplete (functionStep f l).2 ls ↔
      FunctionsComplete f (l :: ls) := by
  obtain hstart | ⟨hstart, hend⟩ | ⟨hstart, hend⟩ := l.function_cases
  · have hend : l.isFunctionEnd = false := by
      by_contra h
      rw [SourceLine.isFunctionStart_eq_false_of_isFunctionEnd (by simpa using h)] at hstart
      cases hstart
    rw [functionStep_start f hstart]
    cases f with
    | none =>
      simp [hstart, FunctionsComplete, wellNestedFunctions_cons_iff, OpenFunction.start_faults,
        OpenFunction.start_kinds]
    | some f =>
      -- a function that is still open is a fault, and no word completes it
      simp [hstart, hend, FunctionsComplete, functionCompletes_cons_iff,
        f.closeUnended_faults_ne_nil]
  · cases f with
    | none =>
      have hstray : Written.faults ⟨[], [l.notice .strayFunctionEnd]⟩ ≠ [] := by
        intro h
        cases h
      simp [functionStep_strayEnd hstart hend, hstart, hend, FunctionsComplete,
        wellNestedFunctions_cons_iff, hstray]
    | some f =>
      simp [functionStep_end hstart hend, hend, FunctionsComplete, functionCompletes_cons_iff,
        f.close_faultless_iff]
  · cases f with
    | none =>
      simp [functionStep_outside hstart hend, hstart, hend, FunctionsComplete,
        wellNestedFunctions_cons_iff]
    | some f =>
      simp [functionStep_body hstart hend, hstart, hend, FunctionsComplete,
        functionCompletes_cons_iff]

theorem functionSteps_faultless_iff (f : Option OpenFunction) (ls : List SourceLine) :
    ((functionSteps f ls).1 ++
      ((functionSteps f ls).2.map OpenFunction.closeUnended).getD .empty).faults = [] ↔
      FunctionsComplete f ls := by
  induction ls generalizing f with
  | nil =>
    cases f with
    | none => simp [functionSteps, FunctionsComplete, WellNestedFunctions.nil]
    | some f =>
      simp [functionSteps, FunctionsComplete, functionCompletes_nil,
        f.closeUnended_faults_ne_nil]
  | cons l ls ih =>
    rw [← functionStep_complete_iff, ← ih]
    simp [functionSteps]

theorem convertFunctions_faultless_iff (ls : List SourceLine) :
    (convertFunctions ls).faults = [] ↔ WellNestedFunctions ls :=
  functionSteps_faultless_iff none ls

/-! ### Programs -/

theorem faults_foldr_append (ws : List Written) :
    (ws.foldr (· ++ ·) Written.empty).faults = [] ↔ ∀ w ∈ ws, w.faults = [] := by
  induction ws with
  | nil => simp
  | cons w ws ih => simp [ih]

theorem Program.convert_faultless_iff (p : Program) :
    p.convert.faults = [] ↔ p.missingEnd = none ∧
      (∀ s ∈ p.routines, WellNested none (blockEvents s.body)) ∧ WellNestedFunctions p.outside := by
  have hmissing : Written.faults ⟨[], p.missingEnd.toList.map .ofMissingEnd⟩ = [] ↔
      p.missingEnd = none := by
    cases p.missingEnd with
    | none => exact iff_of_true rfl rfl
    | some line => exact iff_of_false (fun h => by cases h) (fun h => by cases h)
  simp only [Program.convert, Written.faults_append, Written.faults_code, List.append_eq_nil_iff,
    hmissing, faults_foldr_append, convertFunctions_faultless_iff, List.forall_mem_map,
    MainRoutine.convert_faultless_iff, and_true]
  rw [and_assoc, and_comm (a := WellNestedFunctions _)]

theorem Conversion.ofWritten_success_iff (w : Written) (mainName : List Char) :
    (Conversion.ofWritten true w mainName).success = true ↔ w.faults = [] := by
  rw [(ofWritten_agrees true w mainName).success_iff, ofWritten_details, List.forall_mem_map,
    Written.faults, List.filter_eq_nil_iff]
  simp [Diagnostic.isError]

/-- **Strict conversion succeeds exactly on well-nested programs.** -/
theorem convert_strict_success_iff (src : String) :
    (convert true src).success = true ↔ WellNestedProgram (sourceLines 1 src.toList) := by
  generalize hlines : sourceLines 1 src.toList = lines
  have hsegments : ∀ start body, (∀ s ∈ (⟨start, (Program.cutAtStarts body).1⟩ : MainRoutine) ::
      (Program.cutAtStarts body).2, WellNested none (blockEvents s.body)) ↔
      ∀ segment ∈ body.splitOnP (·.isProgramStart), WellNested none (blockEvents segment) := by
    intro start body
    rw [Program.splitOnP_isProgramStart]
    simp
  simp only [convert_eq, hlines]
  constructor
  · intro h
    split at h
    · -- a source without a start is a fault of its own
      cases (Conversion.ofWritten_success_iff _ _).1 h
    · rename_i p hp
      obtain ⟨hend, hmain, hfunctions⟩ :=
        p.convert_faultless_iff.1 ((Conversion.ofWritten_success_iff _ _).1 h)
      obtain ⟨before, start, body, behind, hd⟩ := Program.delimits_of_ofLines? hp hend
      obtain rfl := Option.some.inj (hp.symm.trans (Program.ofLines?_of_delimits hd))
      exact ⟨before, start, body, behind, hd, (hsegments start body).1 hmain, hfunctions⟩
  · rintro ⟨before, start, body, behind, hd, hmain, hfunctions⟩
    rw [Program.ofLines?_of_delimits hd]
    refine (Conversion.ofWritten_success_iff _ _).2 ((Program.convert_faultless_iff _).2 ?_)
    exact ⟨rfl, (hsegments start body).2 hmain, hfunctions⟩

end Pseudocode
