import Pseudocode.Proofs.Pass.Routine
import Pseudocode.Proofs.Program.Parts

/-!
# The pass over the functions

One state serves all functions: the scope, the writer, and four fields about the function that is
open.  The end of a function restores what it changed (`Restored`), and the start of the next one
sets the rest, so nothing of a function shows in the ones after it.

* `FunctionPass.finish_restored`, `FunctionPass.run_restored` : **what is restored when a function
  ends, on each way out.**
* `FunctionPass.step_does`, `FunctionPass.run_does` : the pass does what `functionStep` says.
* `FunctionPass.convert_eq` : the whole pass.
-/

namespace Pseudocode

namespace FunctionPass

variable {fp fp' fp'' : FunctionPass} {l : SourceLine}

/-! ### What a line does -/

theorem step_start (fp : FunctionPass) (hstart : l.isFunctionStart = true) :
    fp.step l = fp.finishUnended.begin l :=
  if_pos hstart

theorem step_strayEnd (hstart : l.isFunctionStart = false) (hend : l.isFunctionEnd = true)
    (hidle : fp.inFunction = false) :
    fp.step l = { fp with toPass := fp.toPass.blockProblem (l.notice .strayFunctionEnd) } := by
  simp [step, hstart, hend, hidle]

theorem step_end (hstart : l.isFunctionStart = false) (hend : l.isFunctionEnd = true)
    (hopen : fp.inFunction = true) : fp.step l = fp.finish := by
  simp [step, hstart, hend, hopen]

theorem step_outside (hstart : l.isFunctionStart = false) (hend : l.isFunctionEnd = false)
    (hidle : fp.inFunction = false) : fp.step l = fp := by
  simp [step, hstart, hend, hidle]

theorem step_body (hstart : l.isFunctionStart = false) (hend : l.isFunctionEnd = false)
    (hopen : fp.inFunction = true) :
    fp.step l = { fp with toPass := fp.toPass.after (fp.toPass.routine.feedBody l) } := by
  rw [← Pass.feedBody_eq]
  simp only [step, hstart, hend, hopen, Bool.false_eq_true, if_false, Bool.not_true]

/-! ### What is restored -/

/-- No function is open, and nothing is left of the last one but its names and its header. -/
structure Restored (fp : FunctionPass) : Prop where
  inFunction_eq : fp.inFunction = false
  converted_eq : fp.converted = false
  returnVar_eq : fp.returnVar = none
  blocks_eq : fp.scope.blocks = []
  depth_eq : fp.writer.depth = 0

theorem start_restored (opts : Options) (diag : Diagnostics) : (start opts diag).Restored :=
  ⟨rfl, rfl, rfl, rfl, rfl⟩

/-- The end of a function restores the pass, whether its header could be read or not, whether it
returns a result or not, and whatever was left open in it. -/
theorem finish_restored (fp : FunctionPass) : fp.finish.Restored := by
  have hblocks : fp.toPass.closeBlocks.scope.blocks = [] := by
    rw [Pass.closeBlocks_eq]
    rfl
  have hroutine (p : Pass) :
      p.closeRoutine.scope.blocks = [] ∧ p.closeRoutine.writer.depth = 0 := by
    rw [Pass.closeRoutine_eq]
    exact ⟨rfl, rfl⟩
  refine ⟨rfl, rfl, rfl, ?_, ?_⟩
  · have hresult : (fp.toPass.closeBlocks.returnResult fp.returnVar).scope.blocks = [] := by
      rw [Pass.returnResult_eq]
      exact hblocks
    simp only [finish]
    cases fp.converted <;> simp [hresult, hroutine]
  · simp only [finish]
    cases fp.converted <;> simp [hroutine]

/-- **Where no function is open, the pass is restored.** -/
theorem step_restored (h : fp.inFunction = false → fp.Restored) (l : SourceLine) :
    (fp.step l).inFunction = false → (fp.step l).Restored := by
  obtain hstart | ⟨hstart, hend⟩ | ⟨hstart, hend⟩ := l.function_cases
  · rw [step_start fp hstart]
    exact nofun
  · cases hopen : fp.inFunction with
    | false =>
      obtain ⟨h₁, h₂, h₃, h₄, h₅⟩ := h hopen
      rw [step_strayEnd hstart hend hopen]
      exact fun _ => ⟨h₁, h₂, h₃, h₄, h₅⟩
    | true =>
      rw [step_end hstart hend hopen]
      exact fun _ => fp.finish_restored
  · cases hopen : fp.inFunction with
    | false =>
      rw [step_outside hstart hend hopen]
      exact h
    | true =>
      rw [step_body hstart hend hopen]
      exact fun hidle => absurd (hopen.symm.trans hidle) (by decide)

theorem run_restored (h : fp.inFunction = false → fp.Restored) (ls : List SourceLine) :
    (fp.run ls).inFunction = false → (fp.run ls).Restored := by
  induction ls generalizing fp with
  | nil => exact h
  | cons l ls ih => exact ih (step_restored h l)

/-! ### The open function -/

/-- The function that is open, if there is one. -/
def openFunction? (fp : FunctionPass) : Option OpenFunction :=
  if fp.inFunction then
    some ⟨fp.header, Header.Function.ofText? fp.header.code, fp.toPass.routine⟩
  else none

/-- While a function is open, the fields about it are those of its header. -/
structure Tracks (fp : FunctionPass) : Prop where
  converted_eq : fp.inFunction = true →
    fp.converted = (Header.Function.ofText? fp.header.code).isSome
  returnVar_eq : fp.inFunction = true →
    fp.returnVar = (Header.Function.ofText? fp.header.code).bind (·.result)

theorem tracks_of_outside (h : fp.inFunction = false) : fp.Tracks := by
  have hclosed : ¬ fp.inFunction = true := by
    rw [h]
    exact Bool.false_ne_true
  exact ⟨fun hopen => absurd hopen hclosed, fun hopen => absurd hopen hclosed⟩

theorem start_tracks (opts : Options) (diag : Diagnostics) : (start opts diag).Tracks :=
  tracks_of_outside rfl

/-- One pass comes from another by writing, and the given function is open then. -/
structure Does (fp : FunctionPass) (s : Written × Option OpenFunction) (fp' : FunctionPass) :
    Prop where
  tracks : fp'.Tracks
  open_eq : fp'.openFunction? = s.2
  opts_eq : fp'.opts = fp.opts
  text_eq : fp'.writer.text = fp.writer.text ++ render s.1.pieces
  diag_eq : fp'.diag = fp.diag.reportAll fp.opts.strict s.1.notices

theorem Does.append {w w' : Written} {g g' : Option OpenFunction} (h : Does fp (w, g) fp')
    (h' : Does fp' (w', g') fp'') : Does fp (w ++ w', g') fp'' where
  tracks := h'.tracks
  open_eq := h'.open_eq
  opts_eq := h'.opts_eq.trans h.opts_eq
  text_eq := by simp [h'.text_eq, h.text_eq]
  diag_eq := by simp [h'.diag_eq, h.diag_eq, h.opts_eq, Diagnostics.reportAll_reportAll]

theorem does_nothing (h : fp.Tracks) : Does fp (.empty, fp.openFunction?) fp :=
  ⟨h, rfl, rfl, by simp, by simp⟩

theorem does_after (h : fp.Tracks) (s : Written × Routine) :
    Does fp (s.1, fp.openFunction?.map fun f => { f with routine := s.2 })
      { fp with toPass := fp.toPass.after s } where
  tracks := ⟨h.converted_eq, h.returnVar_eq⟩
  open_eq := by
    simp only [openFunction?]
    split <;> rfl
  opts_eq := rfl
  text_eq := rfl
  diag_eq := rfl

/-- The lines that open a function end with a line feed, which its code leaves out. -/
theorem code_concat (f : Header.Function) : f.code ++ ['\n'] = render f.pieces := by
  obtain ⟨name, params, result⟩ := f
  have hline (depth : Nat) (front code : List Char) :
      (front ++ (Piece.line depth code).text).dropLast ++ ['\n'] =
        front ++ (Piece.line depth code).text := by
    rw [Piece.text, ← List.append_assoc, List.dropLast_concat]
  cases result with
  | none => simpa [Header.Function.code, Header.Function.pieces, Header.Function.resultDeclaration]
      using hline 0 [] _
  | some r => simpa [Header.Function.code, Header.Function.pieces,
      Header.Function.resultDeclaration] using hline 1 _ _

theorem begin_does (fp : FunctionPass) (l : SourceLine) :
    Does fp ((OpenFunction.start l).1, some (OpenFunction.start l).2) (fp.begin l) where
  tracks := ⟨fun _ => rfl, fun _ => rfl⟩
  open_eq := by
    simp only [openFunction?, begin, OpenFunction.start, Pass.routine, LineContext.routine]
    cases Header.Function.ofText? l.code <;> rfl
  opts_eq := rfl
  text_eq := by
    simp only [begin, OpenFunction.start]
    cases Header.Function.ofText? l.code with
    | none => simp [Piece.text, indent]
    | some f => simp [Piece.text, indent, ← code_concat, Written.code]
  diag_eq := by
    simp only [begin, OpenFunction.start]
    cases Header.Function.ofText? l.code with
    | none => exact fp.diag.warn_eq (Notice.report_of_isRemark _ rfl)
    | some f => exact (Diagnostics.reportAll_nil _).symm

theorem finish_does (h : fp.Tracks) (hopen : fp.inFunction = true) :
    Does fp (OpenFunction.close ⟨fp.header, Header.Function.ofText? fp.header.code,
      fp.toPass.routine⟩, none) fp.finish := by
  have hfields := h.converted_eq hopen
  have hresult := h.returnVar_eq hopen
  simp only [finish, hfields, hresult, OpenFunction.close, Pass.closeBlocks_eq,
    Pass.returnResult_eq, Pass.after_after, Pass.routine_after]
  cases Header.Function.ofText? fp.header.code with
  | none =>
    refine ⟨tracks_of_outside rfl, rfl, rfl, ?_, ?_⟩
    · simp [Piece.blank, Piece.text, indent]
    · simp
  | some f =>
    simp only [Option.isSome_some, if_true, Pass.closeRoutine_eq, Pass.after_after,
      Pass.routine_after]
    exact ⟨tracks_of_outside rfl, rfl, rfl, rfl, rfl⟩

theorem finishUnended_does (h : fp.Tracks) :
    Does fp ((fp.openFunction?.map OpenFunction.closeUnended).getD .empty, none)
      fp.finishUnended := by
  unfold finishUnended
  split
  · rename_i hopen
    have hreport := does_after h (⟨[], [fp.header.notice .unclosedFunction]⟩, fp.toPass.routine)
    have hend := finish_does hreport.tracks hopen
    rw [Pass.blockProblem_eq _ rfl, openFunction?, if_pos hopen]
    exact hreport.append hend
  · rename_i hidle
    have hnone : fp.openFunction? = none := if_neg hidle
    have hsame := does_nothing h
    rw [hnone] at hsame ⊢
    exact hsame

/-- **A line does to the pass what `functionStep` says.** -/
theorem step_does (h : fp.Tracks) (l : SourceLine) :
    Does fp (functionStep fp.openFunction? l) (fp.step l) := by
  obtain hstart | ⟨hstart, hend⟩ | ⟨hstart, hend⟩ := l.function_cases
  · rw [functionStep_start _ hstart, step_start fp hstart]
    exact (finishUnended_does h).append (begin_does _ l)
  · cases hopen : fp.inFunction with
    | false =>
      have hnone : fp.openFunction? = none := if_neg (by simp [hopen])
      have hreport := does_after h (⟨[], [l.notice .strayFunctionEnd]⟩, fp.toPass.routine)
      rw [hnone] at hreport ⊢
      rw [functionStep_strayEnd hstart hend, step_strayEnd hstart hend hopen,
        Pass.blockProblem_eq _ rfl]
      exact hreport
    | true =>
      rw [openFunction?, if_pos hopen, functionStep_end hstart hend, step_end hstart hend hopen]
      exact finish_does h hopen
  · cases hopen : fp.inFunction with
    | false =>
      have hnone : fp.openFunction? = none := if_neg (by simp [hopen])
      have hsame := does_nothing h
      rw [hnone] at hsame ⊢
      rw [functionStep_outside hstart hend, step_outside hstart hend hopen]
      exact hsame
    | true =>
      have hbody := does_after h (fp.toPass.routine.feedBody l)
      rw [openFunction?, if_pos hopen] at hbody ⊢
      rw [functionStep_body hstart hend, step_body hstart hend hopen]
      exact hbody

/-- **Lines do to the pass what `functionSteps` says.** -/
theorem run_does (h : fp.Tracks) (ls : List SourceLine) :
    Does fp (functionSteps fp.openFunction? ls) (fp.run ls) := by
  induction ls generalizing fp with
  | nil => exact does_nothing h
  | cons l ls ih =>
    have hstep := step_does h l
    have hrest := ih hstep.tracks
    rw [hstep.open_eq] at hrest
    exact hstep.append hrest

/-- **The pass over the lines outside the main program.** -/
theorem convert_eq (opts : Options) (diag : Diagnostics) (ls : List SourceLine) :
    convert opts diag ls = (render (convertFunctions ls).pieces,
      diag.reportAll opts.strict (convertFunctions ls).notices) := by
  have hrun := run_does (start_tracks opts diag) ls
  have hend := finishUnended_does hrun.tracks
  rw [hrun.open_eq] at hend
  have hall := hrun.append hend
  exact Prod.ext hall.text_eq hall.diag_eq

end FunctionPass

end Pseudocode
