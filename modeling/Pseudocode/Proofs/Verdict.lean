import Pseudocode.Proofs.Pass.Convert
import Pseudocode.Proofs.Program.Runs
import Pseudocode.Proofs.Strictness

/-!
# Errors and verdict

A conversion keeps three lists, and they agree with each other and with its verdict.  A lenient
conversion fails on the two markers of a program and on nothing else: whatever is written about a
line or about a block is a warning there.

* `Program.errors_lenient` : the only error that a program can have is its missing end.
* `convert_text_eq_empty_iff`, `convert_mainName_eq_empty_iff` : the result is empty exactly where
  no program starts.
* `convert_verdict` : **diagnostics and verdict agree.**
-/

namespace Pseudocode

/-! ### Lenient conversions -/

/-- In a lenient conversion a notice is an error only if it is about a marker of the program. -/
theorem Notice.isError_report_lenient (n : Notice) :
    (n.report false).isError = (n.cause == .missingStart || n.cause == .missingEnd) := by
  obtain ⟨line, code, cause⟩ := n
  cases cause <;> rfl

theorem Notice.Quotes.isError_lenient {n : Notice} {l : SourceLine} (h : n.Quotes l) :
    (n.report false).isError = false := by
  have hquotes := h.quotesLine
  rw [Notice.isError_report_lenient]
  cases hcause : n.cause <;> simp_all [Cause.quotesLine]

theorem Notice.Concerns.isError_lenient {n : Notice} {ls : List SourceLine} (h : n.Concerns ls) :
    (n.report false).isError = false := by
  obtain ⟨l, -, hquotes⟩ | ⟨b, rfl⟩ := h
  · exact hquotes.isError_lenient
  · rfl

/-- The only error that a lenient conversion finds in a program is its missing end. -/
theorem Program.errors_lenient {lines : List SourceLine} {p : Program}
    (h : ofLines? lines = some p) :
    (p.convert.notices.map (·.report false)).filter (·.isError) =
      p.missingEnd.toList.map fun line => (Notice.ofMissingEnd line).report false := by
  obtain ⟨ns, hnotices, hns⟩ := Program.convert_notices h
  have hrest : (ns.map (·.report false)).filter (·.isError) = [] := by
    refine List.filter_eq_nil_iff.2 fun d hd => ?_
    obtain ⟨n, hn, rfl⟩ := List.mem_map.1 hd
    simp [(hns n hn).isError_lenient]
  rw [hnotices, List.map_append, List.filter_append, hrest, List.append_nil, List.map_map]
  exact List.filter_eq_self.2 fun d hd => by
    obtain ⟨line, -, rfl⟩ := List.mem_map.1 hd
    rfl

/-- A lenient conversion has one error, or none if the markers of the program are there. -/
theorem convert_errors_lenient (src : String) :
    ((convert false src).details.filter (·.isError) = [] ∧
        Program.HasMarkers (sourceLines 1 src.toList)) ∨
      ∃ d, (convert false src).details.filter (·.isError) = [d] ∧
        ¬ Program.HasMarkers (sourceLines 1 src.toList) := by
  rw [convert_eq]
  split
  · rename_i hnone
    refine .inr ⟨_, rfl, fun ⟨start, ending, hsub, hstart, _⟩ => ?_⟩
    have hnot := Program.ofLines?_eq_none_iff.1 hnone start (hsub.subset List.mem_cons_self)
    exact Bool.false_ne_true (hnot.symm.trans hstart)
  · rename_i p hp
    have herrors := Program.errors_lenient hp
    have hmarkers := Program.missingEnd_eq_none_iff hp
    cases hend : p.missingEnd with
    | none =>
      rw [hend] at herrors hmarkers
      exact .inl ⟨herrors, hmarkers.1 rfl⟩
    | some line =>
      rw [hend] at herrors hmarkers
      exact .inr ⟨_, herrors, fun h => Option.some_ne_none _ (hmarkers.2 h)⟩

/-! ### Empty results -/

theorem Program.render_convert_ne_nil (p : Program) : render p.convert.pieces ≠ [] := by
  intro h
  have hpreamble : ∀ piece ∈ preamble, piece ∈ p.convert.pieces := by
    intro piece hpiece
    simp [Program.convert, Written.code, hpiece]
  have hblank := List.flatMap_eq_nil_iff.1 h Piece.blank (hpreamble _ (by simp [preamble]))
  exact absurd hblank (by decide)

theorem SourceLine.programName_ne_nil (l : SourceLine) : l.programName ≠ [] := by
  unfold programName
  split
  · split
    · decide
    · rename_i hname
      simpa using hname
  · decide

theorem Program.name_ne_nil (p : Program) : p.name ≠ [] := SourceLine.programName_ne_nil _

theorem convert_text_eq_empty_iff (strict : Bool) (src : String) :
    (convert strict src).text = "" ↔ ∀ l ∈ sourceLines 1 src.toList, l.isProgramStart = false := by
  rw [← Program.ofLines?_eq_none_iff]
  rw [convert_eq]
  split
  · rename_i hnone
    simp [hnone]
  · rename_i p hp
    simp [p.render_convert_ne_nil, hp]

theorem convert_mainName_eq_empty_iff (strict : Bool) (src : String) :
    (convert strict src).mainName = "" ↔
      ∀ l ∈ sourceLines 1 src.toList, l.isProgramStart = false := by
  rw [← Program.ofLines?_eq_none_iff]
  rw [convert_eq]
  split
  · rename_i hnone
    simp [hnone]
  · rename_i p hp
    simp [p.name_ne_nil, hp]

/-! ### The verdict -/

/-- A diagnostic is a warning or an error about a marker, or in a strict conversion an error about
nesting. -/
theorem category_of_mem_details {strict : Bool} {src : String} {d : Diagnostic}
    (hd : d ∈ (convert strict src).details) :
    d.category = .warning ∨ d.category = .structural ∨ strict = true ∧ d.category = .syntactic := by
  obtain ⟨w, mainName, hw⟩ := exists_ofWritten strict src
  rw [hw] at hd
  obtain ⟨n, -, rfl⟩ := List.mem_map.1 hd
  obtain ⟨line, code, cause⟩ := n
  cases strict <;> cases cause <;> simp [Notice.report, Cause.category, Cause.isNesting]

/-- **Diagnostics and verdict agree.**  The errors are the messages of the diagnostics about markers
and nesting, in order, the warnings are those of the others, and a conversion succeeds exactly if it
has only warnings.  Text and name are empty exactly where no program starts.  A lenient conversion
has one error at most, which is about a marker, and none exactly where a line that starts a program
is followed by a line that ends one. -/
theorem convert_verdict (strict : Bool) (src : String) :
    let c := convert strict src
    let lenient := convert false src
    let lines := sourceLines 1 src.toList
    (c.errors = (c.details.filter fun d => d.category = .structural ∨ d.category = .syntactic).map
        (·.message) ∧
      c.warnings = (c.details.filter (·.category = .warning)).map (·.message) ∧
      (c.success = true ↔ ∀ d ∈ c.details, d.category = .warning)) ∧
    ((c.text = "" ↔ ∀ l ∈ lines, l.isProgramStart = false) ∧
      (c.mainName = "" ↔ ∀ l ∈ lines, l.isProgramStart = false)) ∧
    lenient.errors.length ≤ 1 ∧
    (∀ d ∈ lenient.details, d.category = .structural ∨ d.category = .warning) ∧
    (lenient.errors = [] ↔ Program.HasMarkers lines) := by
  intro c lenient lines
  have hagrees := convert_agrees strict src
  have hlenient := (convert_agrees false src).errors_eq
  refine ⟨⟨?_, ?_, hagrees.success_iff⟩, ⟨convert_text_eq_empty_iff strict src,
    convert_mainName_eq_empty_iff strict src⟩, ?_, fun d hd => ?_, ?_⟩
  · rw [hagrees.errors_eq]
    refine congrArg (List.map Diagnostic.message) (List.filter_congr fun d hd => ?_)
    obtain h | h | ⟨-, h⟩ := category_of_mem_details hd <;> simp [Diagnostic.isError, h]
  · rw [hagrees.warnings_eq]
    refine congrArg (List.map Diagnostic.message) (List.filter_congr fun d _ => ?_)
    rw [Diagnostic.isError, bne, Bool.not_not, beq_eq_decide]
  · obtain ⟨hnone, -⟩ | ⟨d, hone, -⟩ := convert_errors_lenient src
    · simp [lenient, hlenient, hnone]
    · simp [lenient, hlenient, hone]
  · obtain h | h | ⟨hstrict, -⟩ := category_of_mem_details hd
    · exact .inr h
    · exact .inl h
    · cases hstrict
  · obtain ⟨hnone, hmarkers⟩ | ⟨d, hone, hmarkers⟩ := convert_errors_lenient src
    · simp [lenient, hlenient, hnone, lines, hmarkers]
    · simp [lenient, hlenient, hone, lines, hmarkers]

end Pseudocode
