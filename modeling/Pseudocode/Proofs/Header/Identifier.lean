import Pseudocode.Proofs.Header.Counted
import Pseudocode.Proofs.Header.Function
import Pseudocode.Statement.Target

/-!
# Identifiers in headers

Elements of arrays, calls and the starts of programs take any identifier, in the letters of any
script.  The headers of loops and functions read a word instead, which is made of ASCII letters,
digits and underscores, letter case aside.  Every identifier that is no such word stops them: the
word ends within the identifier, and none of the signs of a header stands there.

* `Text.IsIdentifier.splitWord?_append` : where the word at the front of an identifier ends.
* `CountedLoop.ofText?_eq_none_of_identifier`, `Function.ofText?_eq_none_of_identifier` : a header
  with such an identifier cannot be read.
* `identifier_in_headers` : **headers take exactly the identifiers that are words,** where all other
  readers take every identifier.
-/

namespace Pseudocode

open Text

/-! ### Where identifiers are taken -/

section Taken

variable {v : List Char} (hv : IsIdentifier v)
include hv

theorem Text.IsIdentifier.startsBlank_append (t : List Char) : startsBlank (v ++ t) = false := by
  rw [Text.startsBlank_append hv.ne_nil]
  exact startsBlank_of_noBlank fun c hc =>
    isBlank_of_isIdentifierRest (hv.isIdentifierRest_of_mem hc)

theorem Text.IsIdentifier.identifier_eq : identifier v = v := by
  have hsplit : splitIdentifier (v ++ []) = (v, []) := hv.splitIdentifier_append rfl
  rw [List.append_nil] at hsplit
  rw [identifier, hsplit]

theorem Statement.Element.ofText?_of_isIdentifier {index : List Char} (hne : index ≠ [])
    (hline : '\n' ∉ index) :
    Element.ofText? (v ++ '[' :: (index ++ [']'])) = some ⟨v, index⟩ := by
  have hsplit : splitIdentifier (v ++ '[' :: (index ++ [']'])) = (v, '[' :: (index ++ [']'])) :=
    hv.splitIdentifier_append (show isIdentifierRest '[' = false by decide)
  have hbetween : between? '[' ']' (skipBlanks ('[' :: (index ++ [']']))) = some index := by
    simp [between?, skipBlanks, isBlank, hline]
  obtain ⟨c, cs, rfl⟩ := List.exists_cons_of_ne_nil hne
  simp only [Element.ofText?, hsplit, hbetween, List.isEmpty_iff, hv.ne_nil, if_false]

theorem Statement.isCall_of_isIdentifier {args : List Char} (hline : '\n' ∉ args) :
    isCall (v ++ '(' :: (args ++ [')'])) = true := by
  have hsplit : splitIdentifier (v ++ '(' :: (args ++ [')'])) = (v, '(' :: (args ++ [')'])) :=
    hv.splitIdentifier_append (show isIdentifierRest '(' = false by decide)
  have hbetween : between? '(' ')' (skipBlanks ('(' :: (args ++ [')']))) = some args := by
    simp [between?, skipBlanks, isBlank, hline]
  simp [isCall, hsplit, hbetween, hv.ne_nil]

theorem SourceLine.programName_of_isIdentifier {l : SourceLine}
    (hl : l.code = "Algoritmo ".toList ++ v) : l.programName = v := by
  have hlast : fieldsFrom [] v = [v] :=
    fieldsFrom_of_noSpace (fun _ hc => isSpace_of_isIdentifierRest (hv.isIdentifierRest_of_mem hc))
      (.inr hv.ne_nil)
  have hfields : fields l.code = ["Algoritmo".toList, v] := by
    rw [hl, ← hlast]
    rfl
  simp only [programName, hfields, hv.identifier_eq, List.isEmpty_iff, hv.ne_nil, if_false]

end Taken

/-! ### Where only words are taken -/

/-- The word at the front of an identifier that is no word ends within the identifier, if there is
one at all. -/
theorem Text.IsIdentifier.splitWord?_append {v : List Char} (hv : IsIdentifier v)
    (hodd : v.all isLooseWordChar = false) (t : List Char) :
    splitWord? (v ++ t) = none ∨ ∃ word c rest, splitWord? (v ++ t) = some (word, c :: rest) ∧
      isIdentifierRest c = true := by
  obtain ⟨word, rest, rfl, hword, hrest⟩ := exists_run isLooseWordChar v
  cases rest with
  | nil =>
    rw [List.append_nil] at hodd
    exact absurd (List.all_eq_true.2 hword) (Bool.eq_false_iff.1 hodd)
  | cons c cs =>
    have hc : isIdentifierRest c = true :=
      hv.isIdentifierRest_of_mem (List.mem_append_right word List.mem_cons_self)
    rw [List.append_assoc, List.cons_append]
    by_cases hne : word = []
    · subst hne
      exact .inl (splitWord?_eq_none hrest)
    · exact .inr ⟨word, c, cs ++ t, Text.splitWord?_append hne hword hrest, hc⟩

theorem Text.skipBlanks_of_isIdentifierRest {c : Char} (h : isIdentifierRest c = true)
    (rest : List Char) : skipBlanks (c :: rest) = c :: rest :=
  List.dropWhile_cons_of_neg (Bool.eq_false_iff.1 (isBlank_of_isIdentifierRest h))

/-- The signs that may follow the first word of a header are no parts of identifiers. -/
theorem Text.ne_sign_of_isIdentifierRest {c : Char} (h : isIdentifierRest c = true) :
    c ≠ '<' ∧ c ≠ '=' ∧ c ≠ '(' := by
  refine ⟨?_, ?_, ?_⟩ <;>
  · rintro rfl
    exact absurd h (by decide)

namespace Header

theorem CountedLoop.ofText?_eq_none_of_identifier (f : Frame) {v : List Char}
    (hv : IsIdentifier v) (hodd : v.all isLooseWordChar = false) (a b : List Char)
    (step : Option (List Char)) : ofText? (f.header v a b step) = none := by
  obtain ⟨para, gap, hpara, hkey, hgapne, hgap⟩ := f.para_opening.exists_append
  simp only [ofText?, Frame.header, hpara, List.append_assoc, splitKey?_eq_some_iff.2 ⟨hkey, rfl⟩,
    skipSomeBlanks?_append hgap hgapne (hv.startsBlank_append _), Option.bind_eq_bind,
    Option.bind_some]
  obtain hnone | ⟨word, c, rest, hsplit, hc⟩ := hv.splitWord?_append hodd
    (f.arrow ++ (a ++ (f.hasta ++ (b ++ f.ending step))))
  · rw [hnone, Option.bind_none]
  · obtain ⟨hless, hequal, -⟩ := ne_sign_of_isIdentifierRest hc
    simp only [hsplit, Option.bind_some, skipBlanks_of_isIdentifierRest hc]
    split
    · rename_i hsign
      exact absurd (List.cons.inj hsign).1 hless
    · rename_i hsign
      exact absurd (List.cons.inj hsign).1 hequal
    · rfl

theorem Function.ofText?_eq_none_of_identifier (f : Frame) {v : List Char} (hv : IsIdentifier v)
    (hodd : v.all isLooseWordChar = false) (t : List Char) :
    ofText? (f.opening ++ (v ++ t)) = none := by
  rw [f.ofText?_opening (hv.startsBlank_append t)]
  obtain hnone | ⟨word, c, rest, hsplit, hc⟩ := hv.splitWord?_append hodd t
  · simp only [spacedArrow?, colon?, splitNameAndParen?, tightArrow?, plain?, hnone,
      Option.bind_eq_bind, Option.bind_none]
    rfl
  · obtain ⟨hless, -, hparen⟩ := ne_sign_of_isIdentifierRest hc
    have hskip := skipBlanks_of_isIdentifierRest hc rest
    have hsome : skipSomeBlanks? (c :: rest) = none :=
      skipSomeBlanks?_eq_none (isBlank_of_isIdentifierRest hc)
    have hcall : ∀ u, skipBlanks (c :: rest) ≠ '(' :: u := fun u h =>
      hparen (List.cons.inj (hskip.symm.trans h)).1
    rw [spacedArrow?_eq_none hsplit (by simp [hsome]), colon?_eq_none hsplit hcall,
      tightArrow?_eq_none hsplit fun u h => hless (List.cons.inj h).1,
      plain?_eq_none hsplit (by simp [hskip]) hcall]
    rfl

theorem Function.ofText?_of_word {v : List Char} (hne : v ≠ [])
    (hword : ∀ c ∈ v, isLooseWordChar c = true) :
    ofText? ("Funcion ".toList ++ v ++ '(' :: (v ++ [')'])) = some ⟨v, [v], none⟩ := by
  have hparams : paramList [Param.bare v hne hword] = v := by
    simp [paramList, Param.text, Param.bare, Text.join]
  have hread := Frame.standard.ofText?_plainForm [Param.bare v hne hword] hne hword
  simp only [Frame.plainForm, Frame.call, hparams, Frame.opening_standard] at hread
  rw [List.append_assoc]
  exact hread

/-- The text is a plain number: digits, with a sign or a point if need be. -/
def isNumeral (s : List Char) : Bool := !s.isEmpty && s.all ("+-.0123456789".toList.contains ·)

theorem isPart_of_isNumeral {s : List Char} (h : isNumeral s = true) :
    IsPart s ∧ keyWords s = [s.map keyChar] ∧ s.map keyChar ≠ "hasta".toList := by
  obtain ⟨hne, hall⟩ := Bool.and_eq_true_iff.1 h
  have hne : s ≠ [] := by simpa using hne
  have hchars : "+-.0123456789".toList.all (fun c => !isSpace c && keyChar c != 'h') = true := by
    decide
  have hchar : ∀ c ∈ s, isSpace c = false ∧ keyChar c ≠ 'h' := fun c hc => by
    have hmem := List.contains_iff_mem.1 (List.all_eq_true.1 hall c hc)
    simpa using List.all_eq_true.1 hchars c hmem
  have hblank : ∀ c ∈ s, isBlank c = false := fun c hc => isBlank_of_isSpace (hchar c hc).1
  refine ⟨⟨hne, trim_of_noSpace fun c hc => (hchar c hc).1, fun hmem => ?_⟩, ?_, fun hkey => ?_⟩
  · exact absurd (hblank _ hmem) (by decide)
  · rw [keyWords, words_of_noBlank hne hblank]
    rfl
  · obtain ⟨c, cs, rfl⟩ := List.exists_cons_of_ne_nil hne
    exact (hchar c List.mem_cons_self).2 (List.cons.inj hkey).1

theorem countedLoop?_of_identifier {v a b : List Char} (hv : IsIdentifier v)
    (ha : isNumeral a = true) (hb : isNumeral b = true) (names : Names) :
    countedLoop? (CountedLoop.Frame.standard.header v a b none) names =
      if v.all isLooseWordChar then some (CountedLoop.code ⟨v, a, b, none⟩ names) else none := by
  rw [countedLoop?]
  split
  · rename_i hword
    obtain ⟨hparta, hwordsa, hkeya⟩ := isPart_of_isNumeral ha
    obtain ⟨hpartb, hwordsb, -⟩ := isPart_of_isNumeral hb
    have hhasta : "hasta".toList ∉ keyWords a := by
      rw [hwordsa, List.mem_singleton]
      exact hkeya.symm
    have hpaso : ¬ ["con".toList, "paso".toList] <:+: keyWords b := by
      intro hinfix
      have hlength := hinfix.length_le
      simp [hwordsb] at hlength
    rw [CountedLoop.ofText?_header .standard hv.ne_nil (List.all_eq_true.1 hword) hparta hpartb
      (by simp) hhasta hpaso, Option.map_some]
  · rename_i hodd
    rw [CountedLoop.ofText?_eq_none_of_identifier .standard hv (Bool.eq_false_iff.2 hodd),
      Option.map_none]

theorem Function.ofText?_of_identifier {v : List Char} (hv : IsIdentifier v) :
    ofText? ("Funcion ".toList ++ v ++ '(' :: (v ++ [')'])) =
      if v.all isLooseWordChar then some ⟨v, [v], none⟩ else none := by
  split
  · rename_i hword
    exact ofText?_of_word hv.ne_nil (List.all_eq_true.1 hword)
  · rename_i hodd
    have hread := ofText?_eq_none_of_identifier .standard hv (Bool.eq_false_iff.2 hodd)
      ('(' :: (v ++ [')']))
    rwa [Frame.opening_standard, ← List.append_assoc] at hread

/-- **Headers take exactly the identifiers that are words.**  An identifier in the letters of any
script can name an array, a routine that is called and a program.  A counted loop with this counter
and a function with this name and parameter are read exactly if each of its characters is an ASCII
letter, a digit or an underscore, up to letter case. -/
theorem identifier_in_headers {v a b : List Char} (hv : IsIdentifier v) (ha : isNumeral a = true)
    (hb : isNumeral b = true) (names : Names) :
    let loop := "Para ".toList ++ v ++ " <- ".toList ++ a ++ " Hasta ".toList ++ b ++
      " Hacer".toList
    let function := "Funcion ".toList ++ v ++ '(' :: (v ++ [')'])
    (∀ index, index ≠ [] → '\n' ∉ index →
      Statement.Element.ofText? (v ++ '[' :: (index ++ [']'])) = some ⟨v, index⟩) ∧
    (∀ args, '\n' ∉ args → Statement.isCall (v ++ '(' :: (args ++ [')'])) = true) ∧
    (∀ l : SourceLine, l.code = "Algoritmo ".toList ++ v → l.programName = v) ∧
    countedLoop? loop names =
      (if v.all isLooseWordChar then some (CountedLoop.code ⟨v, a, b, none⟩ names) else none) ∧
    Function.ofText? function = if v.all isLooseWordChar then some ⟨v, [v], none⟩ else none := by
  intro loop function
  have hloop : loop = CountedLoop.Frame.standard.header v a b none := by
    simp only [loop, CountedLoop.Frame.header_standard, List.append_assoc]
  rw [hloop]
  exact ⟨fun _ => Statement.Element.ofText?_of_isIdentifier hv,
    fun _ => Statement.isCall_of_isIdentifier hv,
    fun _ => SourceLine.programName_of_isIdentifier hv,
    countedLoop?_of_identifier hv ha hb names, Function.ofText?_of_identifier hv⟩

/-- The long s and the kelvin sign are words up to letter case. -/
theorem identifier_in_headers_of_long_s :
    let v := "ſuma_K2".toList
    (IsIdentifier v ∧ isNumeral "-3".toList = true ∧ isNumeral "2.5".toList = true) ∧
    Statement.Element.ofText? "ſuma_K2[i]".toList = some ⟨v, "i".toList⟩ ∧
    Statement.isCall "ſuma_K2()".toList = true ∧
    SourceLine.programName ⟨1, [], "Algoritmo ſuma_K2".toList, []⟩ = v ∧
    countedLoop? "Para ſuma_K2 <- -3 Hasta 2.5 Hacer".toList ⟨[]⟩ =
      some "for (let ſuma_K2 = -3; ſuma_K2 <= 2.5; ſuma_K2 += 1) \x7b".toList ∧
    Function.ofText? "Funcion ſuma_K2(ſuma_K2)".toList = some ⟨v, [v], none⟩ := by
  intro v
  -- the texts are evaluated one by one, so that none of them is unfolded in the last step
  have helementText : v ++ '[' :: ("i".toList ++ [']']) = "ſuma_K2[i]".toList := by
    decide +revert +kernel
  have hcallText : v ++ '(' :: ([] ++ [')']) = "ſuma_K2()".toList := by decide +revert +kernel
  have hprogramText : "Algoritmo ".toList ++ v = "Algoritmo ſuma_K2".toList := by
    decide +revert +kernel
  have hloopText : "Para ".toList ++ v ++ " <- ".toList ++ "-3".toList ++ " Hasta ".toList ++
      "2.5".toList ++ " Hacer".toList = "Para ſuma_K2 <- -3 Hasta 2.5 Hacer".toList := by
    decide +revert +kernel
  have hfunctionText : "Funcion ".toList ++ v ++ '(' :: (v ++ [')']) =
      "Funcion ſuma_K2(ſuma_K2)".toList := by decide +revert +kernel
  have hcode : CountedLoop.code ⟨v, "-3".toList, "2.5".toList, none⟩ ⟨[]⟩ =
      "for (let ſuma_K2 = -3; ſuma_K2 <= 2.5; ſuma_K2 += 1) \x7b".toList := by decide +kernel
  have hv : IsIdentifier v :=
    ⟨'ſ', "uma_K2".toList, rfl, by decide +kernel, List.all_eq_true.1 (by decide +kernel)⟩
  have ha : isNumeral "-3".toList = true := by decide
  have hb : isNumeral "2.5".toList = true := by decide
  have hword : v.all isLooseWordChar = true := by decide +kernel
  obtain ⟨helement, hcall, hprogram, hloop, hfunction⟩ := identifier_in_headers hv ha hb ⟨[]⟩
  rw [if_pos hword] at hloop hfunction
  rw [hloopText, hcode] at hloop
  rw [hfunctionText] at hfunction
  have helement := helement "i".toList (by decide) (by decide)
  have hcall := hcall [] (by decide)
  rw [helementText] at helement
  rw [hcallText] at hcall
  exact ⟨⟨hv, ha, hb⟩, helement, hcall, hprogram _ hprogramText.symm, hloop, hfunction⟩

/-- A letter with a tilde names an array and a routine that is called, but no counter and no
function. -/
theorem headers_refuse_tilde :
    let v := "año".toList
    (IsIdentifier v ∧ isNumeral "1".toList = true ∧ isNumeral "3".toList = true) ∧
    Statement.Element.ofText? "año[1]".toList = some ⟨v, "1".toList⟩ ∧
    Statement.isCall "año(1)".toList = true ∧
    countedLoop? "Para año <- 1 Hasta 3 Hacer".toList ⟨[]⟩ = none ∧
    Function.ofText? "Funcion año(año)".toList = none := by
  intro v
  have hv : IsIdentifier v :=
    ⟨'a', "ño".toList, rfl, by decide, List.all_eq_true.1 (by decide +kernel)⟩
  exact ⟨⟨hv, by decide, by decide⟩, by decide +kernel, by decide +kernel, by decide +kernel,
    by decide +kernel⟩

end Header

end Pseudocode
