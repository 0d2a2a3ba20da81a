import Mathlib.Data.List.Nodup
import Pseudocode.Proofs.Header.Function
import Pseudocode.Proofs.Written

/-!
# The names that the opening of a function binds

The opening of a generated function binds its parameters and declares its result with `let`.  The
parameters and the result are read from different places of the header, and nothing compares them,
while every other `let` is written for a name that is not declared yet.  So a result that is also a
parameter is bound twice.

* `letNames` : the names that the lines of a text declare with `let`.
* `Function.Shaped.letNames_code` : the opening declares the result and nothing else.
* `Function.opening_binds_once_iff` : **the headers whose opening binds each name once.**
-/

namespace Pseudocode

open Text

/-- The name that a line declares with `let`, none if it is no such declaration. -/
def letName? (line : List Char) : Option (List Char) :=
  match "let ".toList.isPrefixOf? (line.dropWhile (· == ' ')) with
  | some rest => if rest.getLast? = some ';' then some rest.dropLast else none
  | none => none

/-- The names that the lines of a text declare with `let`, in order. -/
def letNames (text : List Char) : List (List Char) := (splitLines text).filterMap letName?

theorem letName?_declaration (name : List Char) :
    letName? (indent 1 ++ ("let ".toList ++ name ++ ";".toList)) = some name := by
  have hrest : "let ".toList.isPrefixOf?
      ((indent 1 ++ ("let ".toList ++ name ++ ";".toList)).dropWhile (· == ' ')) =
      some (name ++ [';']) := rfl
  rw [letName?, hrest]
  simp

namespace Header

namespace Function

/-! ### The opening -/

theorem code_of_noResult {f : Function} (h : f.result = none) : f.code = f.opening := by
  have hrender : ∀ code, render [.line 0 code] = code ++ ['\n'] := by
    intro code
    simp [Piece.text, indent]
  rw [code, pieces, resultDeclaration, h]
  exact (congrArg List.dropLast (hrender f.opening)).trans List.dropLast_concat

theorem code_of_result {f : Function} {result : List Char} (h : f.result = some result) :
    f.code = f.opening ++ '\n' :: (indent 1 ++ ("let ".toList ++ result ++ ";".toList)) := by
  have hrender : ∀ code body,
      render [.line 0 code, .line 1 body] = (code ++ '\n' :: (indent 1 ++ body)) ++ ['\n'] := by
    intro code body
    simp [Piece.text, indent]
  rw [code, pieces, resultDeclaration, h]
  exact (congrArg List.dropLast (hrender f.opening _)).trans List.dropLast_concat

namespace Shaped

variable {f : Function}

theorem oneLine_opening (h : f.Shaped) : '\n' ∉ f.opening := by
  unfold opening
  simp only [List.mem_append, not_or]
  refine ⟨⟨⟨⟨by decide, fun hmem => ?_⟩, by decide⟩, fun hmem => ?_⟩, by decide⟩
  · exact absurd (h.name_word _ hmem) (by decide)
  · obtain hsep | ⟨param, hparam, hmem⟩ := mem_join hmem
    · exact absurd hsep (by decide)
    · exact h.params_oneLine param hparam hmem

theorem oneLine_declaration (h : f.Shaped) {result : List Char} (hresult : f.result = some result) :
    '\n' ∉ indent 1 ++ ("let ".toList ++ result ++ ";".toList) := by
  simp only [List.mem_append, not_or]
  refine ⟨by decide, ⟨by decide, fun hmem => ?_⟩, by decide⟩
  exact absurd (h.result_word result hresult _ hmem) (by decide)

/-- The opening declares the result with `let`, and nothing else. -/
theorem letNames_code (h : f.Shaped) : letNames f.code = f.result.toList := by
  have hopening : letName? f.opening = none := rfl
  unfold letNames splitLines
  cases hresult : f.result with
  | none =>
    rw [code_of_noResult hresult, splitOn_of_notMem h.oneLine_opening,
      List.filterMap_cons_none hopening]
    rfl
  | some result =>
    rw [code_of_result hresult, splitOn_append_cons h.oneLine_opening,
      splitOn_of_notMem (h.oneLine_declaration hresult), List.filterMap_cons_none hopening,
      List.filterMap_cons_some (letName?_declaration result)]
    rfl

end Shaped

/-! ### Names that are bound once -/

/-- The names that the opening of the function binds: its parameters and what it declares. -/
def boundNames (f : Function) : List (List Char) := f.params ++ letNames f.code

theorem nodup_boundNames_iff {line : List Char} {f : Function} (h : ofText? line = some f)
    (hparams : f.params.Nodup) :
    f.boundNames.Nodup ↔ ∀ result, f.result = some result → result ∉ f.params := by
  rw [boundNames, (readFrom_of_ofText? h).letNames_code]
  cases f.result with
  | none => simpa using hparams
  | some result =>
    have hconcat : (f.params ++ [result]).Nodup ↔ result ∉ f.params := by
      rw [List.nodup_append_comm, List.singleton_append, List.nodup_cons, and_iff_left hparams]
    simpa using hconcat

/-- **The headers whose opening binds each name once.**  If the parameters differ from each other,
the only name that the opening of a function declares with `let` is its result, and it binds each
name once exactly if the result is not a parameter.  In the forms `r <- N(ps)`, `r<-N(ps)` and
`N(ps) : r` this depends on the names in the header alone, and `N(ps)` always binds each name
once. -/
theorem opening_binds_once_iff (line : List Char) (f : Function) (h : ofText? line = some f)
    (hparams : f.params.Nodup) :
    letNames f.code = f.result.toList ∧
    (f.boundNames.Nodup ↔ ∀ result, f.result = some result → result ∉ f.params) ∧
    ∀ (frame : Frame) (params : List Param) (name : List Char), name ≠ [] →
      (∀ c ∈ name, isLooseWordChar c = true) →
      (line = frame.plainForm name params → f.boundNames.Nodup) ∧
      ∀ result : List Char, result ≠ [] → (∀ c ∈ result, isLooseWordChar c = true) →
        (∀ gap, (∀ c ∈ gap, isBlank c = true) → line = frame.arrowForm gap result name params →
          (f.boundNames.Nodup ↔ result ∉ params.map (·.name))) ∧
        (line = frame.colonForm result name params →
          (f.boundNames.Nodup ↔ result ∉ params.map (·.name))) := by
  have hiff := nodup_boundNames_iff h hparams
  refine ⟨(readFrom_of_ofText? h).letNames_code, hiff, fun frame params name hne hname =>
    ⟨?_, fun result hresult hword => ⟨?_, ?_⟩⟩⟩
  · rintro rfl
    cases h.symm.trans (frame.ofText?_plainForm params hne hname)
    exact hiff.2 fun result hresult => by cases hresult
  · rintro gap hgap rfl
    cases h.symm.trans (frame.ofText?_arrowForm params hgap hresult hword hne hname)
    rw [hiff]
    simp
  · rintro rfl
    cases h.symm.trans (frame.ofText?_colonForm params hresult hword hne hname)
    rw [hiff]
    simp

/-- Parameters with modifiers and a result of its own. -/
theorem opening_binds_once_with_modifiers :
    let line := "SubProceso total <- suma(a Por Referencia, b)".toList
    let f : Function := ⟨"suma".toList, ["a".toList, "b".toList], some "total".toList⟩
    ofText? line = some f ∧ f.params.Nodup ∧ letNames f.code = ["total".toList] ∧
      f.boundNames.Nodup := by
  intro line f
  have hline : ofText? line = some f := by decide +revert +kernel
  have hparams : f.params.Nodup := by decide +revert +kernel
  have hresult : ∀ result, f.result = some result → result ∉ f.params := by
    rintro _ ⟨⟩
    decide +revert +kernel
  obtain ⟨hlets, hiff, -⟩ := opening_binds_once_iff line f hline hparams
  exact ⟨hline, hparams, hlets, hiff.2 hresult⟩

/-- **A result that is also a parameter is bound twice,** in each form that has a result. -/
theorem parameter_declared_again :
    let f : Function := ⟨"f".toList, ["a".toList], some "a".toList⟩
    (ofText? "Funcion a <- f(a)".toList = some f ∧ ofText? "Funcion a<-f(a)".toList = some f ∧
      ofText? "Funcion f(a) : a".toList = some f) ∧
    f.params.Nodup ∧ f.code = "function f(a) \x7b\n  let a;".toList ∧
    "a".toList ∈ f.params ∧ "a".toList ∈ letNames f.code := by
  decide +kernel

end Function

end Header

end Pseudocode
