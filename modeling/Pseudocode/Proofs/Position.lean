import Pseudocode.Proofs.Pass.Convert
import Pseudocode.Proofs.Nesting.Account

/-!
# The lines that diagnostics point at

Lines are numbered before the blank ones are dropped, so the number of a diagnostic counts the lines
of the source as it was given.  What a diagnostic says it says about the line of that number: it
quotes the line, it names the block that the line opens, or it misses the end of a program behind
the line.

* `Diagnostic.PointsAt` : the diagnostic fits the line it points at.
* `Notice.Quotes.pointsAt`, `Notice.ofUnclosed_pointsAt`, `Notice.ofMissingEnd_pointsAt` : the three
  kinds of diagnostics that point at a line.
* `convert_points_at_lines` : **diagnostics point at the right line.**
-/

namespace Pseudocode

/-- The diagnostic points at line `i + 1` of the texts, which reads `raw`.  It quotes the line,
unless it is about a block that the line opens or about the end that is missing behind the line. -/
structure Diagnostic.PointsAt (d : Diagnostic) (raws : List (List Char)) (i : Nat)
    (raw : List Char) : Prop where
  line_eq : d.line = i + 1
  raw_eq : raws[i]? = some raw
  not_blank : Text.trim raw ≠ []
  unclosed : ∀ b, d.unclosed? = some b → d.code = b.kind.keyword ∧
    ∃ l, SourceLine.ofText? d.line raw = some l ∧ l.opened? = some b
  missingEnd : d.IsMissingEnd → d.code = "FinAlgoritmo" ∧
    ∀ later ∈ raws.drop (i + 1), Text.trim later = []
  quoted : d.unclosed? = none → ¬ d.IsMissingEnd → d.code = String.ofList (Text.trim raw)

/-! ### Lines of a source -/

namespace SourceLine

variable {src : List Char} {l : SourceLine}

theorem exists_raw_of_mem (hl : l ∈ sourceLines 1 src) :
    ∃ (i : Nat) (raw : List Char), l.num = i + 1 ∧ (Text.splitLines src)[i]? = some raw ∧
      Text.trim raw ≠ [] ∧ l.text = Text.trim raw ∧ ofText? l.num raw = some l := by
  obtain ⟨i, raw, hraw, hread⟩ := mem_sourceLines_iff.1 hl
  obtain ⟨hblank, rfl⟩ := ofText?_eq_some_iff.1 hread
  exact ⟨i, raw, Int.add_comm 1 i, hraw, hblank, rfl, hread⟩

theorem Ascending.num_le_of_getLast? {ls : List SourceLine} (h : Ascending ls)
    (hlast : ls.getLast? = some l) : ∀ l' ∈ ls, l'.num ≤ l.num := by
  obtain ⟨front, rfl⟩ := List.getLast?_eq_some_iff.1 hlast
  intro l' hl'
  obtain hl' | hl' := List.mem_append.1 hl'
  · exact Int.le_of_lt ((List.pairwise_append.1 h).2.2 l' hl' l List.mem_cons_self)
  · exact Int.le_of_eq (congrArg num (List.mem_singleton.1 hl'))

/-- Behind the last line of a source there is nothing but blanks. -/
theorem trim_eq_nil_of_getLast? (hlast : (sourceLines 1 src).getLast? = some l) {i : Nat}
    (hi : l.num = i + 1) : ∀ later ∈ (Text.splitLines src).drop (i + 1), Text.trim later = [] := by
  intro later hlater
  by_contra hblank
  obtain ⟨j, hj⟩ := List.mem_iff_getElem?.1 hlater
  rw [List.getElem?_drop] at hj
  have hmem := mem_sourceLines_iff.2 ⟨_, later, hj, ofText?_eq_some_iff.2 ⟨hblank, rfl⟩⟩
  have hle := (sourceLines_ascending src).num_le_of_getLast? hlast _ hmem
  simp only [hi] at hle
  omega

end SourceLine

/-! ### Kinds of diagnostics -/

namespace Notice

variable {src : List Char} {l : SourceLine} {n : Notice}

theorem Quotes.pointsAt (h : n.Quotes l) (hl : l ∈ sourceLines 1 src) (strict : Bool) :
    ∃ i raw, (n.report strict).PointsAt (Text.splitLines src) i raw := by
  obtain ⟨i, raw, hi, hraw, hblank, htext, -⟩ := SourceLine.exists_raw_of_mem hl
  refine ⟨i, raw, h.line_eq.trans hi, hraw, hblank, fun b hb => ?_, fun hend => ?_, fun _ _ => ?_⟩
  · rw [unclosed?_report, h.unclosed?_eq_none] at hb
    cases hb
  · have hquotes := h.quotesLine
    rw [report_isMissingEnd_iff.1 hend] at hquotes
    cases hquotes
  · rw [← htext]
    exact h.code_eq

theorem ofUnclosed_pointsAt {b : OpenBlock} (hl : l ∈ sourceLines 1 src)
    (hopened : l.opened? = some b) (strict : Bool) :
    ∃ i raw, ((ofUnclosed b).report strict).PointsAt (Text.splitLines src) i raw := by
  obtain ⟨i, raw, hi, hraw, hblank, -, hread⟩ := SourceLine.exists_raw_of_mem hl
  have hline := Routine.line_of_opened? hopened
  refine ⟨i, raw, hline.trans hi, hraw, hblank, fun b' hb' => ?_, fun hend => ?_, fun hnone _ => ?_⟩
  · rw [unclosed?_report, unclosed?_ofUnclosed] at hb'
    obtain rfl := Option.some.inj hb'
    rw [← hline] at hread
    exact ⟨rfl, l, hread, hopened⟩
  · cases report_isMissingEnd_iff.1 hend
  · rw [unclosed?_report, unclosed?_ofUnclosed] at hnone
    cases hnone

theorem ofMissingEnd_pointsAt (hlast : (sourceLines 1 src).getLast? = some l) (strict : Bool) :
    ∃ i raw, ((ofMissingEnd l.num).report strict).PointsAt (Text.splitLines src) i raw := by
  obtain ⟨i, raw, hi, hraw, hblank, -⟩ :=
    SourceLine.exists_raw_of_mem (List.mem_of_getLast? hlast)
  refine ⟨i, raw, hi, hraw, hblank, fun b hb => ?_, fun _ => ⟨rfl, ?_⟩, fun _ hend => ?_⟩
  · rw [unclosed?_report] at hb
    cases hb
  · exact SourceLine.trim_eq_nil_of_getLast? hlast hi
  · exact absurd (report_isMissingEnd_iff.2 rfl) hend

end Notice

/-! ### Programs -/

namespace Program

variable {src : List Char} {p : Program}

theorem exists_opened_of_mem_notices (hp : ofLines? (sourceLines 1 src) = some p) {b : OpenBlock}
    (hb : .ofUnclosed b ∈ p.convert.notices) : ∃ l ∈ sourceLines 1 src, l.opened? = some b := by
  have hunclosed : b ∈ p.convert.unclosed := List.mem_filterMap.2 ⟨_, hb, rfl⟩
  rw [p.convert_unclosed] at hunclosed
  obtain ⟨run, hrun, hleft⟩ := List.mem_flatMap.1 hunclosed
  obtain ⟨l, hl, hopened⟩ := Run.exists_of_mem_leftOpen (p.runs_blocks run hrun) hleft
  exact ⟨l, (runs_sublist hp run hrun).subset hl, hopened⟩

theorem notices_pointAt (hp : ofLines? (sourceLines 1 src) = some p) (strict : Bool) :
    ∀ n ∈ p.convert.notices, n.cause ≠ .missingStart ∧
      ∃ i raw, (n.report strict).PointsAt (Text.splitLines src) i raw := by
  obtain ⟨ns, hnotices, hns⟩ := Program.convert_notices hp
  intro n hn
  obtain hmissing | hmem := List.mem_append.1 (hnotices ▸ hn)
  · obtain ⟨line, hline, rfl⟩ := List.mem_map.1 hmissing
    obtain ⟨-, -, -, behind, -, -, -, hend⟩ := exists_eq_append_of_ofLines? hp
    rw [hend] at hline
    split at hline
    · obtain ⟨l, hlast, rfl⟩ := Option.map_eq_some_iff.1 (Option.mem_toList.1 hline)
      exact ⟨Cause.noConfusion, Notice.ofMissingEnd_pointsAt hlast strict⟩
    · cases hline
  · obtain ⟨l, hl, hquotes⟩ | ⟨b, rfl⟩ := hns n hmem
    · refine ⟨fun hcause => ?_, hquotes.pointsAt hl strict⟩
      have := hquotes.quotesLine
      rw [hcause] at this
      cases this
    · obtain ⟨l, hl, hopened⟩ := exists_opened_of_mem_notices hp hn
      exact ⟨Cause.noConfusion, Notice.ofUnclosed_pointsAt hl hopened strict⟩

end Program

/-- **Diagnostics point at the right line.**  Only the diagnostic about a missing start points at no
line.  Every other one points at a line of the source that is not blank, and fits that line. -/
theorem convert_points_at_lines (strict : Bool) (src : String) (d : Diagnostic)
    (hd : d ∈ (convert strict src).details) :
    (d.line = 0 ↔ d.IsMissingStart) ∧
    (d.line ≠ 0 → ∃ i raw, d.PointsAt (Text.splitLines src.toList) i raw) := by
  rw [convert_eq] at hd
  split at hd
  · obtain rfl := List.mem_singleton.1 hd
    exact ⟨⟨fun _ => rfl, fun _ => rfl⟩, fun hline => absurd rfl hline⟩
  · rename_i p hp
    obtain ⟨n, hn, rfl⟩ := List.mem_map.1 hd
    obtain ⟨hcause, i, raw, hpoints⟩ := Program.notices_pointAt hp strict n hn
    have hline := hpoints.line_eq
    refine ⟨⟨fun hzero => by omega, fun hstart => ?_⟩, fun _ => ⟨i, raw, hpoints⟩⟩
    exact absurd (Notice.report_isMissingStart_iff.1 hstart) hcause

/-- Blank lines count, and a block is reported at the line that opens it though a later line is what
leaves it open. -/
theorem convert_points_at_opening_line :
    let src := "\n  Algoritmo p\n\n  Mientras x Hacer\n    Si y\n\n  FinMientras\n\n"
    let d := (Notice.ofUnclosed ⟨.whileLoop, 4⟩).report true
    ((convert true src).details.map (·.line) = [7, 7, 4] ∧ d ∈ (convert true src).details) ∧
    (d.line = 0 ↔ d.IsMissingStart) ∧
    (d.line ≠ 0 → ∃ i raw, d.PointsAt (Text.splitLines src.toList) i raw) := by
  intro src d
  have hlines : (convert true src).details.map (·.line) = [7, 7, 4] := by decide +kernel
  have hd : d ∈ (convert true src).details := by decide +kernel
  exact ⟨⟨hlines, hd⟩, convert_points_at_lines true src d hd⟩

end Pseudocode
