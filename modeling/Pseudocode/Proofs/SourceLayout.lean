import Mathlib.Data.List.DropRight
import Pseudocode.Proofs.Pass.Convert
import Pseudocode.Proofs.Correspondence.Result

/-!
# The layout of a source

Blank lines, indentation, white space at the end of a line and the form of its end (`LF` or `CRLF`)
are layout.  What is left of a source is the list of its lines that are not blank, without the white
space around them; two sources that agree on that list are converted alike, and only the numbers of
their lines may differ.

* `numberedLines` : what is left of a source, with the numbers of the lines.
* `sourceLines_eq_map` : the lines of a source are made of it.
* `convert_ignores_layout` : **layout does not matter.**
-/

namespace Pseudocode

/-! ### What is left without layout -/

/-- What a text holds between the white space at its two ends. -/
def inner (raw : List Char) : List Char := (raw.dropWhile Text.isSpace).rdropWhile Text.isSpace

/-- The lines that are not blank, without the white space around them, each with its number; the
first line has the number `first`. -/
def numberedFrom (first : Nat) (raws : List (List Char)) : List (List Char × Nat) :=
  ((raws.map inner).zipIdx first).filter (!·.1.isEmpty)

/-- The lines of a source that are not blank, without the white space around them, each with its
number. -/
def numberedLines (src : String) : List (List Char × Nat) :=
  numberedFrom 1 (Text.splitLines src.toList)

/-- The lines of a source that are not blank, without the white space around them. -/
def trimmedLines (src : String) : List (List Char) := (numberedLines src).map (·.1)

/-- The numbers of the lines that are not blank. -/
def lineNumbers (src : String) : List Int := (numberedLines src).map fun line => line.2

/-- The two numbers are those of lines with the same place among the lines that are not blank; both
are 0 where no line is meant. -/
def SamePlace (src src' : String) (n n' : Int) : Prop :=
  (n = 0 ∧ n' = 0) ∨ ∃ place : Nat, (lineNumbers src)[place]? = some n ∧
    (lineNumbers src')[place]? = some n'

/-! ### The lines of a source -/

/-- The line of the given trimmed text and number. -/
def SourceLine.ofTrimmed (line : List Char × Nat) : SourceLine :=
  ⟨line.2, line.1, codeOf line.1, Text.lower (codeOf line.1)⟩

theorem SourceLine.ofRaws_eq_map (first : Nat) (raws : List (List Char)) :
    ofRaws first raws = (numberedFrom first raws).map ofTrimmed := by
  induction raws generalizing first with
  | nil => rfl
  | cons raw raws ih =>
    have hinner : inner raw = Text.trim raw := rfl
    have hrest := ih (first + 1)
    rw [Int.natCast_add, Int.natCast_one] at hrest
    unfold numberedFrom at hrest ⊢
    simp only [ofRaws, ofText?, List.map_cons, List.zipIdx_cons, List.filter_cons, hinner, hrest]
    cases (Text.trim raw).isEmpty <;> rfl

theorem sourceLines_eq_map (src : String) :
    sourceLines 1 src.toList = (numberedLines src).map SourceLine.ofTrimmed :=
  SourceLine.ofRaws_eq_map 1 _

/-- Where the trimmed lines agree, the lines are the same but for their numbers. -/
theorem sourceLines_samePlace {src src' : String} (h : trimmedLines src = trimmedLines src') :
    List.Forall₂ (SourceLine.Renumbered (SamePlace src src')) (sourceLines 1 src.toList)
      (sourceLines 1 src'.toList) := by
  have hlength : (numberedLines src).length = (numberedLines src').length := by
    simpa only [trimmedLines, List.length_map] using congrArg List.length h
  rw [sourceLines_eq_map, sourceLines_eq_map, List.forall₂_map_left_iff, List.forall₂_map_right_iff]
  refine List.forall₂_iff_get.2 ⟨hlength, fun place hplace hplace' => ?_⟩
  have hline : ((numberedLines src').get ⟨place, hplace'⟩).1 =
      ((numberedLines src).get ⟨place, hplace⟩).1 := by
    have hget := congrArg (·[place]?) h
    simpa [trimmedLines, hplace, hplace'] using hget.symm
  simp only [SourceLine.ofTrimmed, hline]
  refine ⟨.inr ⟨place, ?_, ?_⟩, rfl, rfl, rfl⟩
  · simp [lineNumbers, hplace]
  · simp [lineNumbers, hplace']

theorem SamePlace.eq_of_lineNumbers_eq {src src' : String} (h : lineNumbers src = lineNumbers src')
    {n n' : Int} (hplace : SamePlace src src' n n') : n' = n := by
  obtain ⟨rfl, rfl⟩ | ⟨place, hn, hn'⟩ := hplace
  · rfl
  · rw [← h, hn] at hn'
    exact (Option.some.inj hn').symm

theorem sourceLines_congr {src src' : String} (h : trimmedLines src = trimmedLines src')
    (hnumbers : lineNumbers src = lineNumbers src') :
    sourceLines 1 src.toList = sourceLines 1 src'.toList := by
  have hlines : List.Forall₂ (· = ·) (sourceLines 1 src.toList) (sourceLines 1 src'.toList) := by
    refine (sourceLines_samePlace h).imp fun l l' hl => ?_
    have hnum := hl.num.eq_of_lineNumbers_eq hnumbers
    cases l
    cases l'
    exact SourceLine.mk.injEq .. ▸ ⟨hnum.symm, hl.text_eq.symm, hl.code_eq.symm, hl.lower_eq.symm⟩
  rwa [List.forall₂_eq_eq_eq] at hlines

/-! ### Results -/

/-- **Layout does not matter.**  Sources with the same trimmed lines have the same result, except
that a diagnostic gives the number of its line in its own source.  If the lines have the same
numbers too, the results are equal. -/
theorem convert_ignores_layout (strict : Bool) (src src' : String)
    (h : trimmedLines src = trimmedLines src') :
    ((convert strict src').text = (convert strict src).text ∧
      (convert strict src').mainName = (convert strict src).mainName ∧
      (convert strict src').success = (convert strict src).success) ∧
    List.Forall₂ (Diagnostic.Renumbered (SamePlace src src')) (convert strict src).details
      (convert strict src').details ∧
    (lineNumbers src = lineNumbers src' → convert strict src' = convert strict src) := by
  have hresults := convert_renumbered (.inl ⟨rfl, rfl⟩) (sourceLines_samePlace h) strict
  refine ⟨⟨hresults.text_eq, hresults.mainName_eq, hresults.success_eq⟩, hresults.details, ?_⟩
  intro hnumbers
  rw [convert_eq, convert_eq, sourceLines_congr h hnumbers]

/-- The second source has other line ends, blank lines, and white space of several scripts. -/
theorem convert_ignores_foreign_spaces :
    let src := "Algoritmo p\nSi x Entonces\nFinPara\nFinAlgoritmo"
    let src' := "\r\n\tAlgoritmo p\u00a0\r\n\r\n  Si x Entonces \r\n\u3000FinPara\r\n" ++
      "FinAlgoritmo\u0085"
    (trimmedLines src = trimmedLines src' ∧
      (convert true src).details.map (·.line) = [3] ∧
      (convert true src').details.map (·.line) = [5]) ∧
    ((convert true src').text = (convert true src).text ∧
      (convert true src').mainName = (convert true src).mainName ∧
      (convert true src').success = (convert true src).success) ∧
    List.Forall₂ (Diagnostic.Renumbered (SamePlace src src')) (convert true src).details
      (convert true src').details ∧
    (lineNumbers src = lineNumbers src' → convert true src' = convert true src) := by
  intro src src'
  have h : trimmedLines src = trimmedLines src' := by decide +kernel
  exact ⟨⟨h, by decide +kernel, by decide +kernel⟩, convert_ignores_layout true src src' h⟩

end Pseudocode
