import Pseudocode.Proofs.Header
import Pseudocode.Proofs.Marks
import Pseudocode.Proofs.Words

/-!
# The forms of a function header

The forms `r <- N(ps)`, `r<-N(ps)`, `N(ps) : r` and `N(ps)` overlap and are tried in order, so a
header that is written in one of them must not be taken for an earlier one.  What follows the first
word of a header tells the forms apart.

* `Param`, `Param.text` : a parameter as it is written, with how it is passed.
* `paramNames_paramList` : **the names of the parameters, in order, without how they are passed.**
* `Frame` : what is written around the parts of a header.
* `ofText?_forms` : all forms give the same parts.
-/

namespace Pseudocode

namespace Header

open Text Scan

namespace Function

/-! ### Parameters -/

/-- A parameter as it is written. -/
structure Param where
  /-- The spaces before it. -/
  before : List Char
  /-- Its name. -/
  name : List Char
  /-- How it is passed, `Por Valor` or `Por Referencia`; empty if that is not said. -/
  passing : List Char
  /-- The spaces behind it. -/
  after : List Char
  before_spaces : ∀ c ∈ before, isSpace c = true
  name_ne_nil : name ≠ []
  name_word : ∀ c ∈ name, isLooseWordChar c = true
  passing_words : passing = [] ∨ IsClosing ["por".toList, "valor".toList] passing ∨
    IsClosing ["por".toList, "referencia".toList] passing
  after_spaces : ∀ c ∈ after, isSpace c = true
  oneLine : '\n' ∉ before ++ (name ++ passing ++ after)

/-- The text of a parameter. -/
def Param.text (p : Param) : List Char := p.before ++ (p.name ++ p.passing ++ p.after)

/-- A parameter that is written as its name alone. -/
def Param.bare (name : List Char) (hne : name ≠ []) (hname : ∀ c ∈ name, isLooseWordChar c = true) :
    Param where
  before := []
  name := name
  passing := []
  after := []
  before_spaces := by simp
  name_ne_nil := hne
  name_word := hname
  passing_words := .inl rfl
  after_spaces := by simp
  oneLine := by
    simp only [List.nil_append, List.append_nil]
    exact fun hmem => absurd (hname _ hmem) (by decide)

/-- The text of a list of parameters. -/
def paramList (params : List Param) : List Char := Text.join [','] (params.map (·.text))

/-- The characters of a parameter: those of words, and spaces within a line. -/
def isParamChar (c : Char) : Bool := (isLooseWordChar c || isSpace c) && c != '\n'

theorem plain_of_isParamChar {c : Char} (h : isParamChar c = true) : role c = .plain ∧ c ≠ ',' := by
  constructor
  · by_contra hplain
    have hmarks : markChars.all (!isParamChar ·) = true := by decide
    have hnot := List.all_eq_true.1 hmarks c (mem_markChars_of_role_ne_plain hplain)
    simp [h] at hnot
  · rintro rfl
    exact absurd h (by decide)

namespace Param

variable (p : Param)

/-- How a parameter is passed is said in words with blanks around them. -/
theorem isLooseWordChar_of_mem_passing {c : Char} (hc : c ∈ p.passing)
    (hblank : isBlank c = false) : isLooseWordChar c = true := by
  obtain ⟨word, hword, hmem⟩ := exists_mem_words hc hblank
  have hkeys : (keyWords p.passing).all (·.all isWordChar) = true := by
    obtain hnil | h | h := p.passing_words
    · rw [hnil]
      rfl
    · rw [h.keyWords_eq]
      decide
    · rw [h.keyWords_eq]
      decide
  have hkey := List.all_eq_true.1 hkeys _ (List.mem_map_of_mem hword)
  exact List.all_eq_true.1 hkey _ (List.mem_map_of_mem hmem)

theorem isParamChar_of_mem {c : Char} (hc : c ∈ p.text) : isParamChar c = true := by
  have hline : c ≠ '\n' := fun h => p.oneLine (h ▸ hc)
  have hclass : isLooseWordChar c = true ∨ isSpace c = true := by
    simp only [text, List.mem_append] at hc
    obtain hc | (hc | hc) | hc := hc
    · exact .inr (p.before_spaces c hc)
    · exact .inl (p.name_word c hc)
    · by_cases hblank : isBlank c = true
      · exact .inr (isSpace_of_isBlank hblank)
      · exact .inl (p.isLooseWordChar_of_mem_passing hc (Bool.eq_false_iff.2 hblank))
    · exact .inr (p.after_spaces c hc)
  simpa [isParamChar, hline] using hclass

theorem endsBlank_passing : endsBlank p.passing = false := by
  obtain hnil | h | h := p.passing_words
  · rw [hnil]
    rfl
  · exact h.ends
  · exact h.ends

theorem trim_text : trim p.text = p.name ++ p.passing := by
  refine trim_append p.before_spaces p.after_spaces ?_ ?_
  · obtain ⟨c, cs, hname⟩ := List.exists_cons_of_ne_nil p.name_ne_nil
    have hc : isLooseWordChar c = true := p.name_word c (by simp [hname])
    rw [hname]
    exact isSpace_of_isLooseWordChar hc
  · refine Bool.eq_false_iff.2 fun hspace => ?_
    obtain ⟨c, hc, hspace⟩ := (Option.any_eq_true _ _).1 hspace
    have hloose : isLooseWordChar c = true := by
      rw [List.getLast?_append] at hc
      cases hlast : p.passing.getLast? with
      | none =>
        rw [hlast] at hc
        exact p.name_word c (List.mem_of_getLast? hc)
      | some d =>
        rw [hlast] at hc
        cases hc
        have hends := p.endsBlank_passing
        rw [endsBlank, hlast] at hends
        exact p.isLooseWordChar_of_mem_passing (List.mem_of_getLast? hlast) hends
    rw [isSpace_of_isLooseWordChar hloose] at hspace
    cases hspace

end Param

theorem withoutMode?_word {name : List Char} (hname : ∀ c ∈ name, isLooseWordChar c = true)
    (mode : List Char) : withoutMode? mode name = none := by
  refine Option.eq_none_iff_forall_ne_some.2 fun rest hmode => ?_
  obtain ⟨s, hs, hrest⟩ := Option.bind_eq_some_iff.1 hmode
  obtain ⟨word, -, rfl⟩ := dropLastKey?_eq_some_iff.1 hs
  have hends : endsBlank s = false := endsBlank_of_noBlank fun c hc =>
    isBlank_of_isLooseWordChar (hname c (List.mem_append_left word hc))
  rw [dropLastBlanks?_eq_none hends] at hrest
  cases hrest

theorem exists_of_passing {mode passing : List Char} (h : IsClosing ["por".toList, mode] passing) :
    ∃ gap por gap' word, passing = gap ++ por ++ gap' ++ word ∧ (∀ c ∈ gap, isBlank c = true) ∧
      gap ≠ [] ∧ por.map keyChar = "por".toList ∧ endsBlank (gap ++ por) = false ∧
      (∀ c ∈ gap', isBlank c = true) ∧ gap' ≠ [] ∧ word.map keyChar = mode := by
  obtain ⟨gap, por, rest, rfl, hgap, hgapne, hpor, hporne, hporword, ⟨-, hnil⟩ | hrest⟩ :=
    h.exists_cons
  · cases hnil
  · obtain ⟨gap', word, rfl, hgap', hgapne', hword, -⟩ := hrest.exists_last
    have hends : endsBlank (gap ++ por) = false := by
      rw [endsBlank_append _ hporne, endsBlank_of_noBlank hporword]
    exact ⟨gap, por, gap', word, by simp, hgap, hgapne, hpor, hends, hgap', hgapne', hword⟩

theorem withoutMode?_append {name passing mode : List Char}
    (hname : ∀ c ∈ name, isLooseWordChar c = true)
    (h : IsClosing ["por".toList, mode] passing) :
    withoutMode? mode (name ++ passing) = some name := by
  obtain ⟨gap, por, gap', word, rfl, hgap, hgapne, hpor, hends, hgap', hgapne', hword⟩ :=
    exists_of_passing h
  have hends : endsBlank (name ++ gap ++ por) = false := by
    rw [List.append_assoc, endsBlank_append _ (by simp [hgapne]), hends]
  have hname : endsBlank name = false := endsBlank_of_noBlank fun c hc =>
    isBlank_of_isLooseWordChar (hname c hc)
  have hcut : name ++ (gap ++ por ++ gap' ++ word) = name ++ gap ++ por ++ gap' ++ word := by simp
  rw [withoutMode?, hcut, dropLastKey?_eq_some_iff.2 ⟨word, hword, rfl⟩, Option.bind_some,
    dropLastBlanks?_append hends hgap' hgapne', Option.bind_some,
    dropLastKey?_eq_some_iff.2 ⟨por, hpor, rfl⟩, Option.bind_some,
    dropLastBlanks?_append hname hgap hgapne]

/-- The two ways to pass a parameter do not end alike. -/
theorem withoutMode?_referencia (name : List Char) {passing : List Char}
    (h : IsClosing ["por".toList, "valor".toList] passing) :
    withoutMode? "referencia".toList (name ++ passing) = none := by
  refine Option.eq_none_iff_forall_ne_some.2 fun rest hrest => ?_
  obtain ⟨s, hs, -⟩ := Option.bind_eq_some_iff.1 hrest
  obtain ⟨word, hword, hcut⟩ := dropLastKey?_eq_some_iff.1 hs
  obtain ⟨gap, por, gap', valor, rfl, -, -, -, -, -, -, hvalor⟩ := exists_of_passing h
  have hlast := congrArg (fun t => (t.map keyChar).getLast?) hcut
  simp [hword, hvalor] at hlast

/-- **The name of a parameter,** however it is passed. -/
theorem paramName_param (p : Param) : paramName (p.name ++ p.passing) = p.name := by
  have htrim : trim p.name = p.name := trim_of_noSpace fun c hc =>
    isSpace_of_isLooseWordChar (p.name_word c hc)
  rw [paramName]
  obtain hnil | h | h := p.passing_words
  · rw [hnil, List.append_nil, withoutMode?_word p.name_word, withoutMode?_word p.name_word]
    exact htrim
  · rw [withoutMode?_referencia p.name h, withoutMode?_append p.name_word h]
    exact htrim
  · rw [withoutMode?_append p.name_word h]
    exact htrim

/-- **The names in a list of parameters.** -/
theorem paramNames_paramList (params : List Param) :
    paramNames (paramList params) = params.map (·.name) := by
  cases params with
  | nil => rfl
  | cons p ps =>
    have hplain : ∀ piece ∈ (p :: ps).map (·.text), ∀ c ∈ piece, role c = .plain ∧ c ≠ ',' := by
      intro piece hpiece c hc
      obtain ⟨q, -, rfl⟩ := List.mem_map.1 hpiece
      exact plain_of_isParamChar (q.isParamChar_of_mem hc)
    have hname : ∀ q : Param, paramName (trim q.text) = q.name := fun q => by
      rw [q.trim_text, paramName_param]
    have hcut : cutTopLevel ',' (join [','] ((p :: ps).map (·.text))) = (p :: ps).map (·.text) :=
      cutTopLevel_join rfl (List.cons_ne_nil _ _) hplain
    rw [paramNames, splitTopLevel, paramList, hcut, List.map_map, List.map_map,
      List.filter_eq_self.2]
    · exact List.map_congr_left fun q _ => hname q
    · intro name hmem
      obtain ⟨q, -, rfl⟩ := List.mem_map.1 hmem
      simpa [hname] using q.name_ne_nil

theorem notMem_paramList {params : List Param} {c : Char} (hc : c ∈ paramList params) :
    c ≠ ')' ∧ c ≠ '\n' := by
  obtain hsep | ⟨piece, hpiece, hc⟩ := Text.mem_join hc
  · obtain rfl := List.mem_singleton.1 hsep
    decide
  · obtain ⟨p, -, rfl⟩ := List.mem_map.1 hpiece
    have hchar := p.isParamChar_of_mem hc
    constructor <;>
    · rintro rfl
      exact absurd hchar (by decide)

/-! ### What follows the first word -/

section FirstWord

variable {s word t : List Char} (h : splitWord? s = some (word, t))
include h

theorem spacedArrow?_eq {u : List Char} (ht : skipSomeBlanks? t = some ('<' :: '-' :: u)) :
    spacedArrow? s = afterArrow? word u := by
  rw [spacedArrow?, h]
  simp only [Option.bind_eq_bind, Option.bind_some, ht]

theorem spacedArrow?_eq_none (ht : ∀ u, skipSomeBlanks? t ≠ some ('<' :: '-' :: u)) :
    spacedArrow? s = none := by
  rw [spacedArrow?, h]
  cases hskip : skipSomeBlanks? t with
  | none => simp only [Option.bind_eq_bind, Option.bind_some, hskip, Option.bind_none]
  | some rest =>
    simp only [Option.bind_eq_bind, Option.bind_some, hskip]
    split
    · rename_i u
      exact absurd hskip (ht u)
    · rfl

theorem tightArrow?_eq {u : List Char} (ht : t = '<' :: '-' :: u) :
    tightArrow? s = afterArrow? word u := by
  rw [tightArrow?, h, ht]
  rfl

theorem tightArrow?_eq_none (ht : ∀ u, t ≠ '<' :: '-' :: u) : tightArrow? s = none := by
  rw [tightArrow?, h]
  simp only [Option.bind_eq_bind, Option.bind_some]

theorem splitNameAndParen?_eq {u : List Char} (ht : skipBlanks t = '(' :: u) :
    splitNameAndParen? s = some (word, u) := by
  rw [splitNameAndParen?, h]
  simp only [Option.bind_eq_bind, Option.bind_some, ht]

theorem colon?_eq_none (ht : ∀ u, skipBlanks t ≠ '(' :: u) : colon? s = none := by
  rw [colon?, splitNameAndParen?, h]
  simp only [Option.bind_eq_bind, Option.bind_some, Option.bind_none]

theorem plain?_eq {u : List Char} (ht : skipBlanks t = '(' :: u) :
    plain? s = (paramsToEnd? u).map fun params => ⟨word, paramNames params, none⟩ := by
  rw [plain?, h]
  simp only [Option.bind_eq_bind, Option.bind_some, ht]

theorem plain?_eq_none (hnil : skipBlanks t ≠ []) (ht : ∀ u, skipBlanks t ≠ '(' :: u) :
    plain? s = none := by
  rw [plain?, h]
  simp only [Option.bind_eq_bind, Option.bind_some]

end FirstWord

/-! ### Reading up to the parameters -/

section Reading

variable {name gap params t result : List Char}

theorem upToParen?_append (h : ∀ c ∈ params, c ≠ ')' ∧ c ≠ '\n') (t : List Char) :
    upToParen? (params ++ ')' :: t) = some params := by
  induction params with
  | nil => rfl
  | cons c cs ih =>
    obtain ⟨⟨hparen, hline⟩, hcs⟩ := List.forall_mem_cons.1 h
    rw [List.cons_append, upToParen?, if_neg hparen, if_neg hline, ih hcs, Option.map_some]

theorem paramsAndResult?_append (h : ∀ c ∈ params, c ≠ ')' ∧ c ≠ '\n')
    (ht : resultAfterColon? t = some result) :
    paramsAndResult? (params ++ ')' :: t) = some (params, result) := by
  induction params with
  | nil => simp [paramsAndResult?, ht]
  | cons c cs ih =>
    obtain ⟨⟨hparen, hline⟩, hcs⟩ := List.forall_mem_cons.1 h
    simp only [List.cons_append, paramsAndResult?, if_neg hparen, if_neg hline, ih hcs,
      Option.map_some]

theorem paramsAndResult?_eq_none (h : ∀ c ∈ params, c ≠ ')' ∧ c ≠ '\n') :
    paramsAndResult? (params ++ [')']) = none := by
  induction params with
  | nil => decide
  | cons c cs ih =>
    obtain ⟨⟨hparen, hline⟩, hcs⟩ := List.forall_mem_cons.1 h
    simp only [List.cons_append, paramsAndResult?, if_neg hparen, if_neg hline, ih hcs,
      Option.map_none]

theorem paramsToEnd?_append (h : ∀ c ∈ params, c ≠ ')' ∧ c ≠ '\n') :
    paramsToEnd? (params ++ [')']) = some params := by
  have hline : '\n' ∉ params := fun hmem => (h _ hmem).2 rfl
  simp [paramsToEnd?, hline]

end Reading

/-! ### Headers as they are written -/

theorem keywords_apart : keywords.Pairwise fun key other => ¬ key <+: other ∧ ¬ other <+: key := by
  decide

/-- What is written around the parts of a function header: a keyword in any letter case and any
blanks. -/
structure Frame where
  /-- `Funcion`, `Función` or `SubProceso` and the blanks behind it. -/
  opening : List Char
  /-- The blanks behind the arrow. -/
  afterArrow : List Char
  /-- The blanks before the parameters. -/
  beforeParen : List Char
  /-- The blanks before the colon. -/
  beforeColon : List Char
  /-- The blanks behind the colon. -/
  afterColon : List Char
  opening_key : ∃ key ∈ keywords, IsOpening [key] opening
  afterArrow_blanks : ∀ c ∈ afterArrow, isBlank c = true
  beforeParen_blanks : ∀ c ∈ beforeParen, isBlank c = true
  beforeColon_blanks : ∀ c ∈ beforeColon, isBlank c = true
  afterColon_blanks : ∀ c ∈ afterColon, isBlank c = true

namespace Frame

variable (f : Frame)

/-- `N(ps)`. -/
def call (name : List Char) (params : List Param) : List Char :=
  name ++ (f.beforeParen ++ '(' :: (paramList params ++ [')']))

/-- `Funcion r <- N(ps)`, with the given blanks before the arrow, if any. -/
def arrowForm (gap result name : List Char) (params : List Param) : List Char :=
  f.opening ++ (result ++ (gap ++ '<' :: '-' :: (f.afterArrow ++ f.call name params)))

/-- `Funcion N(ps) : r`. -/
def colonForm (result name : List Char) (params : List Param) : List Char :=
  f.opening ++ (f.call name params ++ (f.beforeColon ++ ':' :: (f.afterColon ++ result)))

/-- `Funcion N(ps)`. -/
def plainForm (name : List Char) (params : List Param) : List Char :=
  f.opening ++ f.call name params

/-- The usual way to write a header. -/
def standard : Frame where
  opening := "Funcion ".toList
  afterArrow := " ".toList
  beforeParen := []
  beforeColon := " ".toList
  afterColon := " ".toList
  opening_key := ⟨"funcion".toList, by decide, ⟨by decide, by decide, by decide⟩⟩
  afterArrow_blanks := List.all_eq_true.1 (by decide)
  beforeParen_blanks := by simp
  beforeColon_blanks := List.all_eq_true.1 (by decide)
  afterColon_blanks := List.all_eq_true.1 (by decide)

theorem opening_standard : standard.opening = "Funcion ".toList := rfl

theorem ofText?_opening {s : List Char} (hs : startsBlank s = false) :
    ofText? (f.opening ++ s) =
      (spacedArrow? s <|> colon? s <|> tightArrow? s <|> plain? s) := by
  obtain ⟨key, hkey, hopening⟩ := f.opening_key
  obtain ⟨word, gap, hword, hspelled, hgapne, hgap⟩ := hopening.exists_append
  have hread : splitAnyKey? keywords (word ++ (gap ++ s)) = some (word, gap ++ s) :=
    splitAnyKey?_append keywords_apart hkey hspelled _
  rw [hword, List.append_assoc]
  simp only [ofText?, hread, Option.bind_eq_bind, Option.bind_some,
    skipSomeBlanks?_append hgap hgapne hs]

variable {gap result name : List Char} (params : List Param)

/-- A call is read off as its name, and what stands behind its opening parenthesis. -/
theorem splitWord?_call (hne : name ≠ []) (hname : ∀ c ∈ name, isLooseWordChar c = true)
    (t : List Char) : splitWord? (f.call name params ++ t) =
      some (name, f.beforeParen ++ '(' :: (paramList params ++ ')' :: t)) := by
  have hcall : f.call name params ++ t =
      name ++ (f.beforeParen ++ '(' :: (paramList params ++ ')' :: t)) := by simp [call]
  rw [hcall]
  exact splitWord?_append hne hname (noWord_blanks_append f.beforeParen_blanks rfl)

theorem skipBlanks_beforeParen (t : List Char) :
    skipBlanks (f.beforeParen ++ '(' :: t) = '(' :: t :=
  skipBlanks_append f.beforeParen_blanks rfl

theorem afterArrow?_call (hne : name ≠ []) (hname : ∀ c ∈ name, isLooseWordChar c = true)
    (result : List Char) : afterArrow? result (f.afterArrow ++ f.call name params) =
      some ⟨name, params.map (·.name), some result⟩ := by
  have hskip : skipBlanks (f.afterArrow ++ f.call name params) = f.call name params :=
    skipBlanks_append f.afterArrow_blanks (startsBlank_of_word hne hname _)
  have hword := f.splitWord?_call params hne hname []
  rw [List.append_nil] at hword
  have hsplit := splitNameAndParen?_eq hword (f.skipBlanks_beforeParen _)
  have hparams : upToParen? (paramList params ++ [')']) = some (paramList params) :=
    upToParen?_append (fun _ => notMem_paramList) []
  simp only [afterArrow?, hskip, hsplit, hparams, paramNames_paramList, Option.bind_eq_bind,
    Option.bind_some, Option.pure_def]

/-- A header with an arrow is read by the first form if blanks stand before the arrow, and by the
third one otherwise. -/
theorem ofText?_arrowForm (hgap : ∀ c ∈ gap, isBlank c = true) (hresult : result ≠ [])
    (hresultWord : ∀ c ∈ result, isLooseWordChar c = true) (hne : name ≠ [])
    (hname : ∀ c ∈ name, isLooseWordChar c = true) :
    ofText? (f.arrowForm gap result name params) =
      some ⟨name, params.map (·.name), some result⟩ := by
  rw [arrowForm, f.ofText?_opening (startsBlank_of_word hresult hresultWord _)]
  have hcall := f.afterArrow?_call params hne hname result
  generalize f.afterArrow ++ f.call name params = s at hcall
  have hword : splitWord? (result ++ (gap ++ '<' :: '-' :: s)) =
      some (result, gap ++ '<' :: '-' :: s) :=
    splitWord?_append hresult hresultWord (noWord_blanks_append hgap rfl)
  by_cases hnil : gap = []
  · subst hnil
    have hspaced := spacedArrow?_eq_none hword fun u hu => by cases hu
    have hcolon := colon?_eq_none hword fun u hu => by cases hu
    rw [hspaced, hcolon, tightArrow?_eq hword rfl, hcall]
    rfl
  · rw [spacedArrow?_eq hword (skipSomeBlanks?_append hgap hnil rfl), hcall]
    rfl

/-- What starts with a call is not read by a form with an arrow. -/
theorem noArrow_call (hne : name ≠ []) (hname : ∀ c ∈ name, isLooseWordChar c = true)
    (t : List Char) : spacedArrow? (f.call name params ++ t) = none ∧
      tightArrow? (f.call name params ++ t) = none := by
  have hword := f.splitWord?_call params hne hname t
  have hgap := f.beforeParen_blanks
  constructor
  · refine spacedArrow?_eq_none hword fun u hu => ?_
    by_cases hnil : f.beforeParen = []
    · rw [hnil] at hu
      cases hu
    · rw [skipSomeBlanks?_append hgap hnil rfl] at hu
      cases hu
  · refine tightArrow?_eq_none hword fun u hu => ?_
    cases hcase : f.beforeParen with
    | nil =>
      rw [hcase] at hu
      cases hu
    | cons c cs =>
      rw [hcase] at hu hgap
      obtain rfl : c = '<' := (List.cons.inj hu).1
      exact absurd (hgap '<' List.mem_cons_self) (by decide)

theorem resultAfterColon?_append (hresult : result ≠ [])
    (hresultWord : ∀ c ∈ result, isLooseWordChar c = true) :
    resultAfterColon? (f.beforeColon ++ ':' :: (f.afterColon ++ result)) = some result := by
  have hskip : skipBlanks (f.beforeColon ++ ':' :: (f.afterColon ++ result)) =
      ':' :: (f.afterColon ++ result) := skipBlanks_append f.beforeColon_blanks rfl
  have hstart := startsBlank_of_word hresult hresultWord []
  have hword : splitWord? (result ++ []) = some (result, []) :=
    splitWord?_append hresult hresultWord rfl
  rw [List.append_nil] at hstart hword
  rw [resultAfterColon?, hskip]
  simp only [skipBlanks_append f.afterColon_blanks hstart, hword, Option.map_some]

theorem ofText?_colonForm (hresult : result ≠ [])
    (hresultWord : ∀ c ∈ result, isLooseWordChar c = true) (hne : name ≠ [])
    (hname : ∀ c ∈ name, isLooseWordChar c = true) :
    ofText? (f.colonForm result name params) =
      some ⟨name, params.map (·.name), some result⟩ := by
  have hresult := f.resultAfterColon?_append hresult hresultWord
  rw [colonForm]
  generalize f.beforeColon ++ ':' :: (f.afterColon ++ result) = t at hresult
  have hstart : startsBlank (f.call name params ++ t) = false := by
    rw [call, List.append_assoc]
    exact startsBlank_of_word hne hname _
  have hsplit := splitNameAndParen?_eq (f.splitWord?_call params hne hname t)
    (f.skipBlanks_beforeParen _)
  have hparams : paramsAndResult? (paramList params ++ ')' :: t) =
      some (paramList params, result) :=
    paramsAndResult?_append (fun _ => notMem_paramList) hresult
  have hcolon : colon? (f.call name params ++ t) =
      some ⟨name, params.map (·.name), some result⟩ := by
    simp only [colon?, hsplit, hparams, paramNames_paramList, Option.bind_eq_bind,
      Option.bind_some, Option.pure_def]
  rw [f.ofText?_opening hstart, (f.noArrow_call params hne hname t).1, hcolon]
  rfl

theorem ofText?_plainForm (hne : name ≠ []) (hname : ∀ c ∈ name, isLooseWordChar c = true) :
    ofText? (f.plainForm name params) = some ⟨name, params.map (·.name), none⟩ := by
  have hstart : startsBlank (f.call name params) = false := startsBlank_of_word hne hname _
  have hword := f.splitWord?_call params hne hname []
  obtain ⟨hspaced, htight⟩ := f.noArrow_call params hne hname []
  rw [List.append_nil] at hword hspaced htight
  have hsplit := splitNameAndParen?_eq hword (f.skipBlanks_beforeParen _)
  have hparams : paramsAndResult? (paramList params ++ [')']) = none :=
    paramsAndResult?_eq_none fun _ => notMem_paramList
  have hcolon : colon? (f.call name params) = none := by
    simp only [colon?, hsplit, hparams, Option.bind_eq_bind, Option.bind_some, Option.bind_none]
  have hplain : plain? (f.call name params) = some ⟨name, params.map (·.name), none⟩ := by
    rw [plain?_eq hword (f.skipBlanks_beforeParen _),
      paramsToEnd?_append fun _ => notMem_paramList, Option.map_some, paramNames_paramList]
  rw [plainForm, f.ofText?_opening hstart, hspaced, hcolon, htight, hplain]
  rfl

end Frame

/-- **The forms of a header agree.**  With blanks before the arrow, without them, and with a colon,
a header gives the same function: its name, the names of its parameters in order, without how they
are passed, and its result.  Without a result it gives the same function without one. -/
theorem ofText?_forms (f : Frame) {result name : List Char} (params : List Param)
    (hresult : result ≠ []) (hresultWord : ∀ c ∈ result, isLooseWordChar c = true)
    (hne : name ≠ []) (hname : ∀ c ∈ name, isLooseWordChar c = true) :
    (∀ gap, (∀ c ∈ gap, isBlank c = true) →
      ofText? (f.arrowForm gap result name params) =
        some ⟨name, params.map (·.name), some result⟩) ∧
    ofText? (f.colonForm result name params) = some ⟨name, params.map (·.name), some result⟩ ∧
    ofText? (f.plainForm name params) = some ⟨name, params.map (·.name), none⟩ :=
  ⟨fun _ hgap => f.ofText?_arrowForm params hgap hresult hresultWord hne hname,
    f.ofText?_colonForm params hresult hresultWord hne hname, f.ofText?_plainForm params hne hname⟩

/-- The words that say how a parameter is passed can be names as well. -/
theorem ofText?_forms_of_mode_words :
    let params := ["por".toList, "x".toList]
    ofText? "FunciÓn r  <- Por(por POR\tValor, x)".toList =
        some ⟨"Por".toList, params, some "r".toList⟩ ∧
      ofText? "FunciÓn r<- Por(por POR\tValor, x)".toList =
        some ⟨"Por".toList, params, some "r".toList⟩ ∧
      ofText? "FunciÓn Por(por POR\tValor, x): r".toList =
        some ⟨"Por".toList, params, some "r".toList⟩ ∧
      ofText? "FunciÓn Por(por POR\tValor, x)".toList = some ⟨"Por".toList, params, none⟩ := by
  let f : Frame := {
    opening := "FunciÓn ".toList
    afterArrow := [' ']
    beforeParen := []
    beforeColon := []
    afterColon := [' ']
    opening_key := ⟨"función".toList, by decide, by decide, by decide, by decide⟩
    afterArrow_blanks := by simp [isBlank]
    beforeParen_blanks := by simp
    beforeColon_blanks := by simp
    afterColon_blanks := by simp [isBlank] }
  let por : Param := {
    before := []
    name := "por".toList
    passing := " POR\tValor".toList
    after := []
    before_spaces := by simp
    name_ne_nil := by decide
    name_word := List.all_eq_true.1 (by decide)
    passing_words := .inr (.inl ⟨by decide, by decide, by decide⟩)
    after_spaces := by simp
    oneLine := by decide }
  let x : Param := {
    before := [' ']
    name := ['x']
    passing := []
    after := []
    before_spaces := by simp [isSpace]
    name_ne_nil := by simp
    name_word := List.all_eq_true.1 (by decide)
    passing_words := .inl rfl
    after_spaces := by simp
    oneLine := by decide }
  have hresult : ∀ c ∈ ['r'], isLooseWordChar c = true := List.all_eq_true.1 (by decide)
  have hname : ∀ c ∈ "Por".toList, isLooseWordChar c = true := List.all_eq_true.1 (by decide)
  have hspaced : f.arrowForm [' ', ' '] ['r'] "Por".toList [por, x] =
      "FunciÓn r  <- Por(por POR\tValor, x)".toList := by decide +revert +kernel
  have htight : f.arrowForm [] ['r'] "Por".toList [por, x] =
      "FunciÓn r<- Por(por POR\tValor, x)".toList := by decide +revert +kernel
  have hcolon : f.colonForm ['r'] "Por".toList [por, x] =
      "FunciÓn Por(por POR\tValor, x): r".toList := by decide +revert +kernel
  have hplain : f.plainForm "Por".toList [por, x] =
      "FunciÓn Por(por POR\tValor, x)".toList := by decide +revert +kernel
  obtain ⟨harrows, hcolons, hplains⟩ :=
    ofText?_forms f [por, x] (List.cons_ne_nil _ _) hresult (by decide) hname
  have hspaceds := harrows [' ', ' '] (by simp [isBlank])
  have htights := harrows [] (by simp)
  rw [hspaced] at hspaceds
  rw [htight] at htights
  rw [hcolon] at hcolons
  rw [hplain] at hplains
  exact ⟨hspaceds, htights, hcolons, hplains⟩

end Function

end Header

end Pseudocode
