import Pseudocode.Proofs.Pass.Functions
import Pseudocode.Proofs.Pass.Main
import Pseudocode.Proofs.SourceLine

/-!
# The two passes over a source

A conversion searches the lines for the markers of the program and runs one pass over the functions
and one over the main program.  It gives what the parts of the program give that are converted one
by one (`convert_eq`), so what is shown of programs holds of conversions.

* `convertParts_eq` : the two passes.
* `convertLines_eq` : the search for the markers.
* `convert_eq` : **a conversion gives what the parts of the program give.**
-/

namespace Pseudocode

theorem render_eq_nil_iff {ps : List Piece} : render ps = [] ↔ ps = [] := by
  constructor
  · intro h
    cases ps with
    | nil => rfl
    | cons p ps => simp [Piece.text] at h
  · rintro rfl
    rfl

section Parts

variable {start : SourceLine} {ls : List SourceLine} (opts : Options)

/-- The program with the given lines outside and the given main part, whose first line starts it. -/
def Program.ofParts (outside : List SourceLine) (start : SourceLine) (ls : List SourceLine)
    (missingEnd : Option Int) : Program :=
  ⟨outside, ⟨start, (cutAtStarts ls).1⟩, (cutAtStarts ls).2, missingEnd⟩

theorem Program.ofParts_name (outside : List SourceLine) (missingEnd : Option Int) :
    (ofParts outside start ls missingEnd).name = MainPass.nameAfter start.programName ls := by
  simp only [ofParts, name, MainPass.nameAfter]
  cases (cutAtStarts ls).2.getLast? <;> rfl

/-- **The two passes write what the parts of the program write.** -/
theorem convertParts_eq (outside : List SourceLine) (missingEnd : Option Int)
    (hstart : start.isProgramStart = true) (hends : ∀ l ∈ ls, l.isProgramEnd = false) :
    let p := Program.ofParts outside start ls missingEnd
    convertParts opts
        (Diagnostics.empty.reportAll opts.strict (missingEnd.toList.map .ofMissingEnd))
        outside (start :: ls) =
      .ofWritten opts.strict p.convert p.name := by
  intro p
  have hmain : (p.routines.map MainRoutine.convert).foldr (· ++ ·) .empty =
      MainPass.openingLines start ++ MainPass.writtenFrom (.start 1) ls :=
    MainPass.convert_eq_opening start ls
  have hgap : (render (convertFunctions outside).pieces).isEmpty =
      (convertFunctions outside).pieces.isEmpty := by
    rw [Bool.eq_iff_iff, List.isEmpty_iff, List.isEmpty_iff, render_eq_nil_iff]
  have hname : p.name = MainPass.nameAfter start.programName ls := Program.ofParts_name ..
  simp only [convertParts, FunctionPass.convert_eq, MainPass.convert_eq opts _ hstart hends,
    Diagnostics.reportAll_reportAll, Conversion.ofWritten, Program.convert, hmain, hname, hgap]
  have hwriter : (if (convertFunctions outside).pieces.isEmpty then []
      else render (convertFunctions outside).pieces ++ ['\n']) =
      render (convertFunctions outside).pieces ++
        render (if (convertFunctions outside).pieces.isEmpty then [] else [.blank]) := by
    split
    · rename_i hnil
      simp [List.isEmpty_iff.1 hnil]
    · simp [Piece.blank, Piece.text, indent]
  rw [hwriter]
  simp [Program.ofParts, p]

/-- The end of the main program is read with its lines, and writes nothing of its own. -/
theorem convertParts_concat_eq (outside : List SourceLine) {ending : SourceLine}
    (hstart : start.isProgramStart = true) (hends : ∀ l ∈ ls, l.isProgramEnd = false)
    (hcomment : ending.isComment = false) (hending : ending.isProgramEnd = true) :
    let p := Program.ofParts outside start ls none
    convertParts opts .empty outside (start :: (ls ++ [ending])) =
      .ofWritten opts.strict p.convert p.name := by
  intro p
  have hnotStart := SourceLine.isProgramStart_eq_false_of_isProgramEnd hending
  have hparts := convertParts_eq opts outside none hstart hends
  rw [Option.toList_none, List.map_nil, Diagnostics.reportAll_nil] at hparts
  rw [← hparts]
  simp only [convertParts,
    MainPass.convert_concat_eq opts _ hstart hends hcomment hnotStart hending]

end Parts

/-- A search for a line cuts the lines where a look at one after the other does. -/
theorem findIdx?_cases (test : SourceLine → Bool) (ls : List SourceLine) :
    (ls.findIdx? test = none ∧ ls.dropWhile (!test ·) = [] ∧ ls.takeWhile (!test ·) = ls) ∨
      ∃ i found rest, ls.findIdx? test = some i ∧ test found = true ∧
        ls.dropWhile (!test ·) = found :: rest ∧ ls.takeWhile (!test ·) = ls.take i ∧
        ls.drop i = found :: rest := by
  have hindex : ls.findIdx (fun l => !!test l) = ls.findIdx test := by simp only [Bool.not_not]
  have hdrop : ls.dropWhile (!test ·) = ls.drop (ls.findIdx test) := by
    rw [List.dropWhile_eq_drop_findIdx_not, hindex]
  have htake : ls.takeWhile (!test ·) = ls.take (ls.findIdx test) := by
    rw [List.takeWhile_eq_take_findIdx_not, hindex]
  cases h : ls.findIdx? test with
  | none =>
    have hall := List.findIdx?_eq_none_iff.1 h
    refine .inl ⟨rfl, ?_, ?_⟩
    · exact List.dropWhile_eq_nil_iff.2 fun l hl => by simp [hall l hl]
    · exact List.takeWhile_eq_self_iff.2 fun l hl => by simp [hall l hl]
  | some i =>
    obtain ⟨hlt, hi⟩ := List.findIdx?_eq_some_iff_findIdx_eq.1 h
    have hcons := List.drop_eq_getElem_cons hlt
    rw [hi] at hdrop htake
    have hfound : test ls[i] = true := by
      subst hi
      exact List.findIdx_getElem
    exact .inr ⟨i, ls[i], ls.drop (i + 1), rfl, hfound, hdrop.trans hcons, htake, hcons⟩

/-- **The search for the markers** finds the parts of the program. -/
theorem convertLines_eq (opts : Options) {lines : List SourceLine}
    (hcomment : ∀ l ∈ lines, l.isProgramEnd = true → l.isComment = false) :
    convertLines opts lines = match Program.ofLines? lines with
      | none => .ofWritten opts.strict ⟨[], [.ofMissingStart]⟩ []
      | some p => .ofWritten opts.strict p.convert p.name := by
  unfold convertLines Program.ofLines?
  obtain ⟨hnone, hdrop, -⟩ | ⟨i, start, rest, hsome, hstart, hdrop, htake, hmain⟩ :=
    findIdx?_cases (·.isProgramStart) lines
  · rw [hnone, hdrop]
    exact congrArg (Diagnostics.result · [] []) (Diagnostics.fail_ofMissingStart _)
  rw [hsome, hdrop]
  simp only [hmain, htake, List.tail_cons]
  obtain ⟨hnone, hdrop, htake⟩ | ⟨j, ending, after, hsome, hending, hdrop, htake, hafter⟩ :=
    findIdx?_cases (·.isProgramEnd) rest
  · -- the main part has no end, and it is missed at the last line
    have hends : ∀ l ∈ rest, l.isProgramEnd = false := fun l hl => by
      simpa using List.dropWhile_eq_nil_iff.1 hdrop l hl
    have hlast : ((start :: rest).getLast?.map (·.num)).getD 0 =
        (rest.getLast?.getD start).num := by
      rw [List.getLast?_cons]
      rfl
    have hdiag (line : Int) : Diagnostics.empty.fail .structural (.ofMissingEnd line) endAdvice =
        Diagnostics.empty.reportAll opts.strict [.ofMissingEnd line] :=
      Diagnostics.fail_ofMissingEnd ..
    simp only [hnone, hdrop, htake, hlast, hdiag]
    exact convertParts_eq opts (lines.take i) (some (rest.getLast?.getD start).num) hstart hends
  · have hends : ∀ l ∈ rest.take j, l.isProgramEnd = false := fun l hl => by
      rw [← htake] at hl
      simpa using List.mem_takeWhile_imp hl
    have hrest : rest = rest.take j ++ ending :: after := by
      rw [← hafter, List.take_append_drop]
    have hmem : ending ∈ lines := by
      refine List.mem_of_mem_drop (i := i) ?_
      rw [hmain, hrest]
      simp
    have hbehind : (start :: rest).drop (j + 2) = after := by
      rw [List.drop_succ_cons, ← List.drop_drop, hafter]
      rfl
    have hfront : (start :: rest).take (j + 2) = start :: (rest.take j ++ [ending]) := by
      rw [List.take_succ_cons, List.take_add, hafter]
      rfl
    simp only [hsome, hdrop, htake, hbehind, hfront]
    exact convertParts_concat_eq opts (lines.take i ++ after) hstart hends
      (hcomment ending hmem hending) hending

/-- **A conversion gives what the parts of the program give.** -/
theorem convert_eq (strict : Bool) (src : String) :
    convert strict src = match Program.ofLines? (sourceLines 1 src.toList) with
      | none => .ofWritten strict ⟨[], [.ofMissingStart]⟩ []
      | some p => .ofWritten strict p.convert p.name :=
  convertLines_eq ⟨strict⟩ fun _ hl => SourceLine.isComment_eq_false_of_isProgramEnd hl

/-- What a conversion has to say are the notices of its program, as they are reported. -/
theorem exists_ofWritten (strict : Bool) (src : String) :
    ∃ w mainName, convert strict src = .ofWritten strict w mainName := by
  rw [convert_eq]
  split
  · exact ⟨_, _, rfl⟩
  · exact ⟨_, _, rfl⟩

/-- **The lists and the verdict of a conversion agree.** -/
theorem convert_agrees (strict : Bool) (src : String) : (convert strict src).Agrees := by
  obtain ⟨w, mainName, hw⟩ := exists_ofWritten strict src
  rw [hw]
  exact Conversion.ofWritten_agrees strict w mainName

end Pseudocode
