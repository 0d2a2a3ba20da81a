import Pseudocode.Proofs.Pass.Convert
import Pseudocode.Proofs.Correspondence.Result
import Pseudocode.Proofs.Program.Parts
import Pseudocode.Proofs.SourceLine

/-!
# Where functions stand

Functions may stand before or behind the main program.

* `Program.ofLines?_append_left`, `Program.ofLines?_append_right` : lines in front of the start of a
  program and behind its end are lines outside it.
* `convert_function_placement` : **functions may stand before or behind the main program.**
-/

namespace Pseudocode

/-! ### Blocks of lines -/

/-- A block of lines, as it stands in a source. -/
structure Block where
  /-- The lines, without their line feeds. -/
  raws : List (List Char)
  noFeed : ∀ raw ∈ raws, '\n' ∉ raw

namespace Block

/-- One block after the other. -/
def append (a b : Block) : Block :=
  ⟨a.raws ++ b.raws, List.forall_mem_append.2 ⟨a.noFeed, b.noFeed⟩⟩

instance : Append Block := ⟨append⟩

/-- The source that consists of the block. -/
def source (b : Block) : String := String.ofList (Text.join ['\n'] b.raws)

/-- The lines of the block that are not blank, numbered from 1 on. -/
def lines (b : Block) : List SourceLine := SourceLine.ofRaws 1 b.raws

/-- The block is a main program: it begins with a start marker, and its first end marker is its last
line. -/
def IsMain (b : Block) : Prop :=
  ∃ start body ending, b.lines = start :: (body ++ [ending]) ∧ start.isProgramStart = true ∧
    ending.isProgramEnd = true ∧ ∀ l ∈ start :: body, l.isProgramEnd = false

/-- No line of the block starts a program. -/
def NoStart (b : Block) : Prop := ∀ l ∈ b.lines, l.isProgramStart = false

end Block

theorem Block.sourceLines_source (b : Block) : sourceLines 1 b.source.toList = b.lines := by
  have hlist : b.source.toList = Text.join ['\n'] b.raws := String.toList_ofList ..
  unfold sourceLines lines Text.splitLines
  rw [hlist]
  by_cases hne : b.raws = []
  · rw [hne]
    rfl
  · rw [Text.splitOn_join hne b.noFeed]

namespace SourceLine

theorem ofRaws_renumbered {R : Int → Int → Prop} {num num' : Int} {raws : List (List Char)}
    (h : ∀ i : Nat, i < raws.length → R (num + i) (num' + i)) :
    List.Forall₂ (Renumbered R) (ofRaws num raws) (ofRaws num' raws) := by
  induction raws generalizing num num' with
  | nil => exact .nil
  | cons raw raws ih =>
    have hfirst : R num num' := by simpa using h 0 (Nat.zero_lt_succ _)
    have hrest : List.Forall₂ (Renumbered R) (ofRaws (num + 1) raws) (ofRaws (num' + 1) raws) := by
      refine ih fun i hi => ?_
      simpa [Int.add_assoc, Int.add_comm 1] using h (i + 1) (Nat.succ_lt_succ hi)
    simp only [ofRaws, ofText?]
    cases (Text.trim raw).isEmpty with
    | true => exact hrest
    | false => exact .cons ⟨hfirst, rfl, rfl, rfl⟩ hrest

end SourceLine

theorem Block.lines_append (a b : Block) :
    (a ++ b).lines = a.lines ++ SourceLine.ofRaws (1 + a.raws.length) b.raws :=
  SourceLine.ofRaws_append 1 a.raws b.raws

/-! ### Functions around the main program -/

namespace Program

variable {ls : List SourceLine}

theorem ofLines?_append_left {front : List SourceLine}
    (h : ∀ l ∈ front, l.isProgramStart = false) :
    ofLines? (front ++ ls) =
      (ofLines? ls).map fun p => { p with outside := front ++ p.outside } := by
  have hfront : ∀ l ∈ front, (!l.isProgramStart) = true := fun l hl => by simp [h l hl]
  simp only [ofLines?, List.dropWhile_append_of_pos hfront, List.takeWhile_append_of_pos hfront]
  split
  · rfl
  · split
    · rfl
    · rw [List.append_assoc]
      rfl

theorem ofLines?_append_right {p : Program} (hp : ofLines? ls = some p) (hend : p.missingEnd = none)
    (behind : List SourceLine) :
    ofLines? (ls ++ behind) = some { p with outside := p.outside ++ behind } := by
  obtain ⟨before, start, body, after, h⟩ := delimits_of_ofLines? hp hend
  obtain ⟨ending, hending, hls⟩ := h.lines_eq
  have hlonger : Delimits (ls ++ behind) before start body (after ++ behind) :=
    ⟨h.before_noStart, h.start_isStart, h.body_noEnd, ending, hending, by simp [hls]⟩
  rw [ofLines?_of_delimits h] at hp
  cases hp
  rw [ofLines?_of_delimits hlonger, List.append_assoc]

end Program

/-- The two numbers are those of one line if the first block comes first and if it comes last: a
line of the first block moves behind the second one, and a line of the second one moves up. -/
def Moved (first second : Block) (n n' : Int) : Prop :=
  (∃ i : Nat, i < first.raws.length ∧ n = 1 + i ∧ n' = 1 + second.raws.length + i) ∨
    ∃ i : Nat, i < second.raws.length ∧ n = 1 + first.raws.length + i ∧ n' = 1 + i

theorem Block.IsMain.exists_program {main : Block} (h : main.IsMain) :
    ∃ p, Program.ofLines? main.lines = some p ∧ p.outside = [] ∧ p.missingEnd = none := by
  obtain ⟨start, body, ending, hlines, hstart, hending, hbody⟩ := h
  have hdelimits : Program.Delimits main.lines [] start body [] :=
    ⟨List.forall_mem_nil _, hstart, (List.forall_mem_cons.1 hbody).2, ending, hending, hlines⟩
  exact ⟨_, Program.ofLines?_of_delimits hdelimits, rfl, rfl⟩

/-- The two programs differ in the numbers of their lines only. -/
theorem Block.IsMain.exists_matches {functions main : Block} (hmain : main.IsMain)
    (hfunctions : functions.NoStart) :
    ∃ p p', Program.ofLines? (functions ++ main).lines = some p ∧
      Program.ofLines? (main ++ functions).lines = some p' ∧
      p.Matches (.renumbering (Moved functions main)) p' := by
  obtain ⟨p, hp, houtside, hend⟩ := hmain.exists_program
  -- the main program as it is numbered behind the functions
  have hshifted : List.Forall₂ (SourceLine.Renumbered (Moved functions main))
      (SourceLine.ofRaws (1 + functions.raws.length) main.raws) main.lines :=
    SourceLine.ofRaws_renumbered fun i hi => .inr ⟨i, hi, rfl, rfl⟩
  have houter : List.Forall₂ (SourceLine.Renumbered (Moved functions main)) functions.lines
      (SourceLine.ofRaws (1 + main.raws.length) functions.raws) :=
    SourceLine.ofRaws_renumbered fun i hi => .inl ⟨i, hi, rfl, rfl⟩
  have hmatches := Program.ofLines?_matches (S := .renumbering (Moved functions main)) hshifted
  rw [hp] at hmatches
  obtain ⟨q, hq, hmatch⟩ : ∃ q, Program.ofLines?
      (SourceLine.ofRaws (1 + functions.raws.length) main.raws) = some q ∧
      q.Matches (.renumbering (Moved functions main)) p := by
    generalize Program.ofLines? (SourceLine.ofRaws _ main.raws) = found at hmatches
    cases hmatches with
    | some hmatch => exact ⟨_, rfl, hmatch⟩
  have hqoutside : q.outside = [] := List.forall₂_nil_right_iff.1 (houtside ▸ hmatch.outside)
  refine ⟨{ q with outside := functions.lines ++ q.outside },
    { p with outside := p.outside ++ SourceLine.ofRaws (1 + main.raws.length) functions.raws },
    ?_, ?_, ?_⟩
  · rw [lines_append, Program.ofLines?_append_left hfunctions, hq, Option.map_some]
  · rw [lines_append]
    exact Program.ofLines?_append_right hp hend _
  · refine ⟨?_, hmatch.first, hmatch.others, hmatch.missingEnd⟩
    simp only [hqoutside, houtside, List.append_nil, List.nil_append]
    exact houter

/-- **Functions may stand before or behind the main program.**  A block of lines without a start
marker gives the same result in front of a main program and behind it, but for the numbers of the
lines. -/
theorem convert_function_placement (strict : Bool) (functions main : Block) (hmain : main.IsMain)
    (hfunctions : functions.NoStart) :
    let before := convert strict (functions ++ main).source
    let behind := convert strict (main ++ functions).source
    (behind.text = before.text ∧ behind.mainName = before.mainName ∧
      behind.success = before.success) ∧
    List.Forall₂ (Diagnostic.Renumbered (Moved functions main)) before.details behind.details := by
  intro before behind
  obtain ⟨p, p', hp, hp', hmatches⟩ := hmain.exists_matches hfunctions
  have hresults : before.Renumbered (Moved functions main) behind := by
    simp only [before, behind, convert_eq, Block.sourceLines_source, hp, hp']
    exact hmatches.renumbered strict
  exact ⟨⟨hresults.text_eq, hresults.mainName_eq, hresults.success_eq⟩, hresults.details⟩

/-- Neither a broken function nor a stray end marker has to stand behind the main program. -/
theorem convert_broken_function_placement :
    let functions : Block := ⟨["Funcion f(a".toList, "".toList, "FinSi".toList,
      "FinAlgoritmo".toList, "Funcion g".toList], by decide +kernel⟩
    let main : Block := ⟨["".toList, "Algoritmo p".toList, "Leer x".toList,
      "FinAlgoritmo".toList], by decide +kernel⟩
    let before := convert true (functions ++ main).source
    let behind := convert true (main ++ functions).source
    (main.IsMain ∧ functions.NoStart ∧ before.details.map (·.line) = [1, 3, 4, 1, 5, 8] ∧
      behind.details.map (·.line) = [5, 7, 8, 5, 9, 3]) ∧
    (behind.text = before.text ∧ behind.mainName = before.mainName ∧
      behind.success = before.success) ∧
    List.Forall₂ (Diagnostic.Renumbered (Moved functions main)) before.details behind.details := by
  intro functions main before behind
  have hmain : main.IsMain :=
    ⟨main.lines.head (by decide +kernel), main.lines.tail.dropLast,
      main.lines.getLast (by decide +kernel), by decide +kernel, by decide +kernel,
      by decide +kernel, by decide +kernel⟩
  have hfunctions : functions.NoStart := by
    unfold Block.NoStart
    decide +kernel
  exact ⟨⟨hmain, hfunctions, by decide +kernel, by decide +kernel⟩,
    convert_function_placement true functions main hmain hfunctions⟩

end Pseudocode
