import Pseudocode.Proofs.Pass.Functions

/-!
# Functions are converted in isolation

The pass over the functions goes on with what the functions before have left: their text, their
diagnostics, the names and the header of the last of them.  Two passes are compared here, one of
which has all that behind it.  While no function is open they may differ in everything else
(`FunctionPass.Beside`), since the start of a function sets every field that its conversion reads.

* `Pass.behind` : a pass with text and diagnostics before its own.
* `FunctionPass.Beside.step`, `FunctionPass.Beside.run` : **what stands before is never read.**
* `FunctionPass.convert_isolated` : **functions are converted in isolation.**
-/

namespace Pseudocode

/-! ### Records and passes with something before them -/

namespace Diagnostics

/-- One record after the other. -/
def append (d e : Diagnostics) : Diagnostics :=
  ⟨d.errors ++ e.errors, d.warnings ++ e.warnings, d.details ++ e.details⟩

instance : Append Diagnostics := ⟨append⟩

theorem append_empty (d : Diagnostics) : d ++ empty = d := by
  change Diagnostics.mk _ _ _ = _
  simp [empty]

theorem append_warn (d e : Diagnostics) (n : Notice) : (d ++ e).warn n = d ++ e.warn n :=
  congrArg₂ (Diagnostics.mk (d.errors ++ e.errors)) (List.append_assoc ..) (List.append_assoc ..)

theorem append_reportAll (strict : Bool) (d e : Diagnostics) (ns : List Notice) :
    (d ++ e).reportAll strict ns = d ++ e.reportAll strict ns := by
  change Diagnostics.mk _ _ _ = Diagnostics.mk _ _ _
  congr 1 <;> exact List.append_assoc ..

end Diagnostics

namespace Pass

variable (p : Pass) (front : List Char) (before : Diagnostics)

/-- The pass with a text and a record before its own. -/
def behind : Pass :=
  { p with diag := before ++ p.diag, writer := ⟨front ++ p.writer.text, p.writer.depth⟩ }

theorem after_behind (s : Written × Routine) :
    (p.behind front before).after s = (p.after s).behind front before := by
  simp [after, LineContext.after, LineContext.reportAll, behind, Diagnostics.append_reportAll]

theorem blockProblem_behind {n : Notice} (h : n.cause.isNesting = true) :
    (p.behind front before).blockProblem n = (p.blockProblem n).behind front before := by
  rw [blockProblem_eq _ h, blockProblem_eq _ h]
  exact after_behind ..

theorem closeBlocks_behind :
    (p.behind front before).closeBlocks = p.closeBlocks.behind front before := by
  rw [closeBlocks_eq, closeBlocks_eq]
  exact after_behind ..

theorem returnResult_behind (result : Option (List Char)) :
    (p.behind front before).returnResult result = (p.returnResult result).behind front before := by
  rw [returnResult_eq, returnResult_eq]
  exact after_behind ..

theorem closeRoutine_behind :
    (p.behind front before).closeRoutine = p.closeRoutine.behind front before := by
  rw [closeRoutine_eq, closeRoutine_eq]
  exact after_behind ..

end Pass

namespace FunctionPass

/-! ### Two passes side by side -/

/-- The second pass is the first one with a text and a record before its own.  While no function is
open, they may differ in all that a function uses. -/
structure Beside (front : List Char) (before : Diagnostics) (fp fp' : FunctionPass) : Prop where
  opts_eq : fp'.opts = fp.opts
  text_eq : fp'.writer.text = front ++ fp.writer.text
  diag_eq : fp'.diag = before ++ fp.diag
  inFunction_eq : fp'.inFunction = fp.inFunction
  of_inFunction : fp.inFunction = true →
    fp' = { fp with toPass := fp.toPass.behind front before }

namespace Beside

variable {front : List Char} {before : Diagnostics} {fp fp' : FunctionPass} {l : SourceLine}

theorem of_behind (fp : FunctionPass) (front : List Char) (before : Diagnostics) :
    Beside front before fp { fp with toPass := fp.toPass.behind front before } :=
  ⟨rfl, rfl, rfl, rfl, fun _ => rfl⟩

/-- The start of a function sets every field that is read later. -/
theorem begin (h : Beside front before fp fp') (l : SourceLine) :
    Beside front before (fp.begin l) (fp'.begin l) := by
  have heq : fp'.begin l =
      { fp.begin l with toPass := (fp.begin l).toPass.behind front before } := by
    simp only [FunctionPass.begin, Pass.behind, h.diag_eq, h.opts_eq]
    congr 2
    · congr 1
      split
      · exact Diagnostics.append_warn ..
      · rfl
    · simp [CodeWriter.line, CodeWriter.raw, CodeWriter.setDepth, h.text_eq]
  rw [heq]
  exact of_behind ..

theorem finish (h : Beside front before fp fp') (hopen : fp.inFunction = true) :
    Beside front before fp.finish fp'.finish := by
  have heq : fp'.finish =
      { fp.finish with toPass := fp.finish.toPass.behind front before } := by
    rw [h.of_inFunction hopen]
    simp only [FunctionPass.finish, Pass.closeBlocks_behind, Pass.returnResult_behind,
      Pass.closeRoutine_behind]
    congr 1
    split
    · rfl
    · simp [Pass.behind, CodeWriter.line, CodeWriter.raw, CodeWriter.setDepth]
  rw [heq]
  exact of_behind ..

/-- A fault outside functions is recorded behind what stands before. -/
theorem blockProblem (h : Beside front before fp fp') {n : Notice}
    (hn : n.cause.isNesting = true) :
    Beside front before { fp with toPass := fp.toPass.blockProblem n }
      { fp' with toPass := fp'.toPass.blockProblem n } := by
  refine ⟨h.opts_eq, h.text_eq, ?_, h.inFunction_eq, fun hopen => ?_⟩
  · rw [Pass.blockProblem_eq _ hn, Pass.blockProblem_eq _ hn, Pass.diag_after, Pass.diag_after,
      h.opts_eq, h.diag_eq]
    exact Diagnostics.append_reportAll ..
  · rw [h.of_inFunction hopen]
    exact congrArg (fun toPass => { fp with toPass }) (Pass.blockProblem_behind _ _ _ hn)

theorem finishUnended (h : Beside front before fp fp') :
    Beside front before fp.finishUnended fp'.finishUnended := by
  unfold FunctionPass.finishUnended
  rw [h.inFunction_eq]
  split
  · rename_i hopen
    obtain rfl := h.of_inFunction hopen
    exact (h.blockProblem rfl).finish hopen
  · exact h

/-- **What stands before is not read by a line.** -/
theorem step (h : Beside front before fp fp') (l : SourceLine) :
    Beside front before (fp.step l) (fp'.step l) := by
  have hopen' := h.inFunction_eq
  obtain hstart | ⟨hstart, hend⟩ | ⟨hstart, hend⟩ := l.function_cases
  · rw [step_start fp hstart, step_start fp' hstart]
    exact h.finishUnended.begin l
  · cases hopen : fp.inFunction with
    | false =>
      rw [step_strayEnd hstart hend hopen, step_strayEnd hstart hend (hopen'.trans hopen)]
      exact h.blockProblem rfl
    | true =>
      rw [step_end hstart hend hopen, step_end hstart hend (hopen'.trans hopen)]
      exact h.finish hopen
  · cases hopen : fp.inFunction with
    | false =>
      rw [step_outside hstart hend hopen, step_outside hstart hend (hopen'.trans hopen)]
      exact h
    | true =>
      rw [step_body hstart hend hopen, step_body hstart hend (hopen'.trans hopen)]
      obtain rfl := h.of_inFunction hopen
      simp only [Pass.after_behind]
      exact of_behind { fp with toPass := fp.toPass.after (fp.toPass.routine.feedBody l) } ..

theorem run (h : Beside front before fp fp') (ls : List SourceLine) :
    Beside front before (fp.run ls) (fp'.run ls) := by
  induction ls generalizing fp fp' with
  | nil => exact h
  | cons l ls ih => exact ih (h.step l)

end Beside

/-- **Functions are converted in isolation.**  Where no function is open behind the first lines,
nothing is left to be closed there, and the other lines are converted as if they stood alone:
neither blocks that were left open, nor headers that could not be read, nor declared names are
carried over. -/
theorem convert_isolated (opts : Options) (diag : Diagnostics) (as bs : List SourceLine)
    (h : ((start opts diag).run as).inFunction = false) :
    ((start opts diag).run as).Restored ∧
    (convert opts diag (as ++ bs)).1 =
      (convert opts diag as).1 ++ (convert opts .empty bs).1 ∧
    (convert opts diag (as ++ bs)).2 =
      (convert opts diag as).2 ++ (convert opts .empty bs).2 := by
  have hfirst : ((start opts diag).run as).finishUnended = (start opts diag).run as :=
    if_neg (by simp [h])
  have hopts : ((start opts diag).run as).opts = opts :=
    (run_does (start_tracks opts diag) as).opts_eq
  have hrun : (start opts diag).run (as ++ bs) = ((start opts diag).run as).run bs :=
    List.foldl_append
  have hbeside : Beside ((start opts diag).run as).writer.text ((start opts diag).run as).diag
      (start opts .empty) ((start opts diag).run as) := by
    refine ⟨hopts, (List.append_nil _).symm, (Diagnostics.append_empty _).symm, h, nofun⟩
  have hend := (hbeside.run bs).finishUnended
  refine ⟨run_restored (fun _ => start_restored opts diag) as h, ?_, ?_⟩
  · simp only [convert, hrun, hfirst]
    exact hend.text_eq
  · simp only [convert, hrun, hfirst]
    exact hend.diag_eq

/-- The first function has a header that cannot be read, declares `n` and leaves two blocks open,
and another end follows it; the second one declares `n` again. -/
theorem convert_isolated_from_broken :
    let as := sourceLines 1
      "Funcion f(a\nLeer n\nMientras n > 0 Hacer\nRepetir\nFinFuncion\nFinFuncion".toList
    let bs := sourceLines 7 "Funcion r <- g(m)\nLeer n\nr <- n\nFinFuncion".toList
    let opts : Options := ⟨true⟩
    (((start opts .empty).run as).inFunction = false ∧
      ((start opts .empty).run as).scope.names.toList = ["n".toList] ∧
      (convert opts .empty as).2.details.map (·.line) = [1, 2, 4, 3, 6]) ∧
    ((start opts .empty).run as).Restored ∧
    (convert opts .empty (as ++ bs)).1 =
      (convert opts .empty as).1 ++ (convert opts .empty bs).1 ∧
    (convert opts .empty (as ++ bs)).2 =
      (convert opts .empty as).2 ++ (convert opts .empty bs).2 := by
  intro as bs opts
  have h : ((start opts .empty).run as).inFunction = false := by decide +kernel
  exact ⟨⟨h, by decide +kernel, by decide +kernel⟩, convert_isolated opts .empty as bs h⟩

end FunctionPass

end Pseudocode
