import Pseudocode.Dispatch
import Pseudocode.Proofs.Header
import Pseudocode.Proofs.Words

/-!
# The split of a counted loop

The parts of `Para v <- a Hasta b Con Paso s Hacer` are arbitrary texts, so a header can be cut in
several ways.  What decides is the words between its blanks: keywords that have been passed over
are words of the text, so a part that lacks them is never cut short.

* `overPhrase` : passes over keywords that follow each other.
* `overPhrase_eq_none` : **keywords are not found before the end of a part that lacks them.**
* `CountedLoop.Frame`, `CountedLoop.Frame.header` : what is written around the parts of a header,
  and the header.
* `CountedLoop.ofText?_header` : a header is split into the parts that it was written with.
* `countedLoop?_header` : the loop that is generated from it.
-/

namespace Pseudocode

namespace Header

open Text

/-! ### Passing over keywords -/

section Choice

variable {β : Type} {result : β} {next : List Char → Option β}

theorem overBlanks_append {gap t : List Char} (hgap : ∀ c ∈ gap, isBlank c = true)
    (ht : startsBlank t = false) (h : next t = some result) :
    overBlanks next (gap ++ t) = some result := by
  induction gap with
  | nil =>
    cases t with
    | nil => exact h
    | cons c t =>
      have hc : isBlank c = false := ht
      simpa only [List.nil_append, overBlanks, hc, Bool.false_eq_true, if_false] using h
  | cons c gap ih =>
    obtain ⟨hc, hgap⟩ := List.forall_mem_cons.1 hgap
    rw [List.cons_append, overBlanks, if_pos hc, ih hgap]
    rfl

theorem overSomeBlanks_append {gap t : List Char} (hgap : ∀ c ∈ gap, isBlank c = true)
    (hne : gap ≠ []) (ht : startsBlank t = false) (h : next t = some result) :
    overSomeBlanks next (gap ++ t) = some result := by
  cases gap with
  | nil => exact absurd rfl hne
  | cons c gap =>
    obtain ⟨hc, hgap⟩ := List.forall_mem_cons.1 hgap
    rw [List.cons_append, overSomeBlanks, if_pos hc]
    exact overBlanks_append hgap ht h

theorem overKey_append {key word : List Char} (hword : word.map keyChar = key) (t : List Char) :
    overKey key next (word ++ t) = next t := by
  rw [overKey, splitKey?_eq_some_iff.2 ⟨hword, rfl⟩]
  rfl

/-- Passes over keywords with blanks around each of them. -/
def overPhrase (next : List Char → Option β) : (keys : List (List Char)) → List Char → Option β
  | [] => overSomeBlanks next
  | key :: keys => overSomeBlanks (overKey key (overPhrase next keys))

theorem overPhrase_append {keys : List (List Char)} {t s : List Char} (ht : IsPhrase keys t)
    (hs : startsBlank s = false) (h : next s = some result) :
    overPhrase next keys (t ++ s) = some result := by
  induction keys generalizing t with
  | nil =>
    have hblank : ∀ c ∈ t, isBlank c = true := isBlank_of_keyWords_eq_nil ht.keyWords_eq
    exact overSomeBlanks_append hblank (ne_nil_of_startsBlank ht.starts) hs h
  | cons key keys ih =>
    obtain ⟨gap, word, rest, rfl, hgap, hgapne, hword, hne, hstart, hrest⟩ := ht.exists_cons
    rw [List.append_assoc, List.append_assoc]
    refine overSomeBlanks_append hgap hgapne ?_ ?_
    · rwa [startsBlank_append hne]
    · rw [overKey_append hword]
      exact ih hrest

theorem keyWords_of_overPhrase {keys : List (List Char)} (hkeys : keys.all isKey = true)
    {s : List Char} (h : overPhrase next keys s = some result) :
    startsBlank s = true ∧ ∃ rest, keyWords s = keys ++ rest := by
  induction keys generalizing s with
  | nil =>
    obtain ⟨c, gap, t, rfl, hc, -, -⟩ := exists_append_of_overSomeBlanks h
    exact ⟨hc, _, rfl⟩
  | cons key keys ih =>
    obtain ⟨c, gap, t, rfl, hc, hgap, h⟩ := exists_append_of_overSomeBlanks h
    obtain ⟨word, u, rfl, hword, h⟩ := exists_append_of_overKey h
    obtain ⟨hkey, hkeys⟩ := Bool.and_eq_true_iff.1 hkeys
    obtain ⟨hstart, rest, hrest⟩ := ih hkeys h
    refine ⟨hc, rest, ?_⟩
    have hwords : keyWords (c :: (gap ++ (word ++ u))) = keyWords (word ++ u) := by
      rw [keyWords, words_cons _ hc, words_blanks_append hgap, keyWords]
    rw [hwords, keyWords_append (.inr hstart), keyWords_of_spelled hkey hword, hrest]
    rfl

/-! ### Parts of a header -/

/-- The text can be a part of a header: it is not empty, has no spaces at its ends and stands on
one line. -/
structure IsPart (s : List Char) : Prop where
  ne_nil : s ≠ []
  trimmed : trim s = s
  oneLine : '\n' ∉ s

theorem IsPart.startsBlank_eq {s : List Char} (h : IsPart s) : startsBlank s = false := by
  have hhead := head?_trim s
  rw [h.trimmed] at hhead
  exact any_isBlank_of_any_isSpace hhead

theorem IsPart.endsBlank_eq {front back : List Char} (h : IsPart (front ++ back))
    (hne : back ≠ []) : endsBlank back = false := by
  have hlast := getLast?_trim (front ++ back)
  rw [h.trimmed, List.getLast?_append_of_ne_nil front hne] at hlast
  exact any_isBlank_of_any_isSpace hlast

/-- **Keywords are not found before the end of a part that lacks them,** unless they go on in what
follows the part. -/
theorem overPhrase_eq_none {keys : List (List Char)} (hkeys : keys.all isKey = true)
    {part front back tail : List Char} (hpart : IsPart part) (hcut : part = front ++ back)
    (hne : back ≠ []) (htail : startsBlank tail = true) (hlacks : ¬ keys <:+: keyWords part)
    (hlate : ∀ early late, keys = early ++ late → early ≠ [] → late ≠ [] →
      ¬ late <+: keyWords tail) :
    overPhrase next keys (back ++ tail) = none := by
  subst hcut
  refine Option.eq_none_iff_forall_ne_some.2 fun result h => ?_
  obtain ⟨hstart, rest, hrest⟩ := keyWords_of_overPhrase hkeys h
  rw [startsBlank_append hne] at hstart
  rw [keyWords_append (.inr htail)] at hrest
  rw [keyWords_append (.inr hstart)] at hlacks
  obtain ⟨late, rfl, htail⟩ | ⟨more, hmore, -⟩ := List.append_eq_append_iff.1 hrest
  · by_cases hnil : late = []
    · refine hlacks (List.IsSuffix.isInfix ?_)
      rw [hnil, List.append_nil]
      exact List.suffix_append _ _
    · have hback : keyWords back ≠ [] := keyWords_ne_nil hne (hpart.endsBlank_eq hne)
      exact hlate _ late rfl hback hnil ⟨rest, htail.symm⟩
  · refine hlacks ?_
    rw [hmore]
    exact ⟨keyWords front, more, List.append_assoc _ _ _⟩

theorem shortestFrom_append {next : List Char → List Char → Option β} {held part rest : List Char}
    (hne : part ≠ []) (hline : '\n' ∉ part)
    (hearly : ∀ front back, part = front ++ back → back ≠ [] →
      next (held.reverse ++ front) (back ++ rest) = none)
    (h : next (held.reverse ++ part) rest = some result) :
    shortestFrom next held (part ++ rest) = some result := by
  induction part generalizing held with
  | nil => exact absurd rfl hne
  | cons c cs ih =>
    obtain ⟨hc, hcs⟩ := not_or.1 (mt List.mem_cons.2 hline)
    have hheld : ∀ front, (c :: held).reverse ++ front = held.reverse ++ c :: front := by
      intro front
      simp
    rw [List.cons_append, shortestFrom, if_neg (Ne.symm hc)]
    by_cases hnil : cs = []
    · subst hnil
      rw [List.nil_append, show (c :: held).reverse = held.reverse ++ [c] by simp, h]
      rfl
    · have hfirst : next (c :: held).reverse (cs ++ rest) = none := by
        simpa using hearly [c] cs rfl hnil
      rw [hfirst]
      refine ih hnil hcs (fun front back hcut hback => ?_) (by rwa [hheld])
      rw [hheld]
      exact hearly (c :: front) back (by rw [hcut, List.cons_append]) hback

/-- A part is taken as it was written, if nothing shorter can go on. -/
theorem shortest_append {next : List Char → List Char → Option β} {part rest : List Char}
    (hpart : IsPart part)
    (hearly : ∀ front back, part = front ++ back → back ≠ [] → next front (back ++ rest) = none)
    (h : next part rest = some result) : shortest next (part ++ rest) = some result :=
  shortestFrom_append hpart.ne_nil hpart.oneLine hearly h

end Choice

/-! ### The end of a header -/

namespace CountedLoop

variable {β : Type} {result : β}

theorem keyWords_of_overEnd {result' : β} {s : List Char} (h : overEnd result s = some result') :
    keyWords s = ["hacer".toList] := by
  obtain ⟨c, gap, t, rfl, hc, hgap, h⟩ := exists_append_of_overSomeBlanks h
  obtain ⟨word, t, rfl, hword, h⟩ := exists_append_of_overKey h
  split at h
  · rename_i hnil
    rw [List.isEmpty_iff.1 hnil, List.append_nil, keyWords, words_cons _ hc,
      words_blanks_append hgap]
    exact keyWords_of_spelled (by decide) hword
  · cases h

theorem overEnd_of_isClosing {t : List Char} (h : IsClosing ["hacer".toList] t) :
    overEnd result t = some result := by
  obtain ⟨gap, word, rfl, hgap, hgapne, hword, hblank⟩ := h.exists_last
  refine overSomeBlanks_append hgap hgapne (startsBlank_of_noBlank hblank) ?_
  rw [← List.append_nil word, overKey_append hword]
  rfl

theorem overEnd_eq_none {back tail : List Char} (hne : back ≠ []) (hends : endsBlank back = false)
    (htail : startsBlank tail = true) (hwords : keyWords tail ≠ []) :
    overEnd result (back ++ tail) = none := by
  refine Option.eq_none_iff_forall_ne_some.2 fun result' h => ?_
  have hwords' := keyWords_of_overEnd h
  rw [keyWords_append (.inr htail)] at hwords'
  have hback := List.length_pos_iff.2 (keyWords_ne_nil hne hends)
  have htail := List.length_pos_iff.2 hwords
  have hlength := congrArg List.length hwords'
  simp only [List.length_append, List.length_singleton] at hlength
  omega

end CountedLoop

/-! ### Headers as they are written -/

/-- What is written around the parts of the header of a counted loop: keywords in any letter case
and any blanks. -/
structure CountedLoop.Frame where
  /-- `Para` and the blanks behind it. -/
  para : List Char
  /-- The sign of assignment and the blanks around it, if any. -/
  arrow : List Char
  /-- `Hasta` and the blanks around it. -/
  hasta : List Char
  /-- `Con Paso` and the blanks around both words. -/
  conPaso : List Char
  /-- `Hacer` and the blanks before it. -/
  hacer : List Char
  para_opening : IsOpening ["para".toList] para
  arrow_words : words arrow = ["<-".toList] ∨ words arrow = ["=".toList]
  hasta_phrase : IsPhrase ["hasta".toList] hasta
  conPaso_phrase : IsPhrase ["con".toList, "paso".toList] conPaso
  hacer_closing : IsClosing ["hacer".toList] hacer

namespace CountedLoop.Frame

variable (f : Frame)

/-- The end of a header, from its step on. -/
def ending : (step : Option (List Char)) → List Char
  | none => f.hacer
  | some s => f.conPaso ++ (s ++ f.hacer)

/-- The header of a loop with the given counter, first and last value, and step, if any. -/
def header (counter first last : List Char) (step : Option (List Char)) : List Char :=
  f.para ++ (counter ++ (f.arrow ++ (first ++ (f.hasta ++ (last ++ f.ending step)))))

/-- The usual way to write a header. -/
def standard : Frame where
  para := "Para ".toList
  arrow := " <- ".toList
  hasta := " Hasta ".toList
  conPaso := " Con Paso ".toList
  hacer := " Hacer".toList
  para_opening := ⟨by decide, by decide, by decide⟩
  arrow_words := .inl (by decide)
  hasta_phrase := ⟨by decide, by decide, by decide⟩
  conPaso_phrase := ⟨by decide, by decide, by decide⟩
  hacer_closing := ⟨by decide, by decide, by decide⟩

theorem header_standard (counter first last : List Char) :
    standard.header counter first last none = "Para ".toList ++ (counter ++ (" <- ".toList ++
      (first ++ (" Hasta ".toList ++ (last ++ " Hacer".toList))))) := rfl

theorem exists_arrow : ∃ left sign right, f.arrow = left ++ (sign ++ right) ∧
    (sign = "<-".toList ∨ sign = "=".toList) ∧ (∀ c ∈ left, isBlank c = true) ∧
    ∀ c ∈ right, isBlank c = true := by
  obtain ⟨sign, hsign, hwords⟩ : ∃ sign, (sign = "<-".toList ∨ sign = "=".toList) ∧
      words f.arrow = [sign] :=
    f.arrow_words.elim (fun h => ⟨_, .inl rfl, h⟩) fun h => ⟨_, .inr rfl, h⟩
  obtain ⟨left, right, harrow, hleft, -, -, -, hright⟩ := exists_of_words_eq_cons hwords
  exact ⟨left, sign, right, harrow, hsign, hleft, isBlank_of_keyWords_eq_nil (congrArg _ hright)⟩

theorem startsBlank_ending (step : Option (List Char)) : startsBlank (f.ending step) = true := by
  cases step with
  | none => exact f.hacer_closing.starts
  | some s => exact f.conPaso_phrase.startsBlank_append _

theorem keyWords_ending_some (s : List Char) :
    keyWords (f.ending (some s)) = "con".toList :: "paso".toList :: keyWords (s ++ f.hacer) := by
  rw [ending, keyWords_append (.inl f.conPaso_phrase.ends), f.conPaso_phrase.keyWords_eq]
  rfl

end CountedLoop.Frame

namespace CountedLoop

variable {f : Frame} {v a b : List Char} {step : Option (List Char)}

theorem stepAndEnd_ending (hstep : ∀ s ∈ step, IsPart s) :
    stepAndEnd (f.ending step) = some step := by
  have hend : ∀ result : Option (List Char), overEnd result f.hacer = some result := fun _ =>
    overEnd_of_isClosing f.hacer_closing
  cases step with
  | none =>
    have hnone : overPhrase (shortest fun step rest => overEnd (some step) rest)
        ["con".toList, "paso".toList] f.hacer = none := by
      refine Option.eq_none_iff_forall_ne_some.2 fun result h => ?_
      obtain ⟨-, rest, hrest⟩ := keyWords_of_overPhrase (by decide) h
      rw [f.hacer_closing.keyWords_eq] at hrest
      cases hrest
    change (overPhrase _ ["con".toList, "paso".toList] f.hacer <|> overEnd none f.hacer) = _
    rw [hnone, hend]
    rfl
  | some s =>
    have hs : IsPart s := hstep s rfl
    have hread : shortest (fun step rest => overEnd (some step) rest) (s ++ f.hacer) =
        some (some s) := by
      refine shortest_append hs (fun front back hcut hne => ?_) (hend (some s))
      subst hcut
      have hwords : keyWords f.hacer ≠ [] := by simp [f.hacer_closing.keyWords_eq]
      exact overEnd_eq_none hne (hs.endsBlank_eq hne) f.hacer_closing.starts hwords
    have hstart : startsBlank (s ++ f.hacer) = false := by
      rw [startsBlank_append hs.ne_nil, hs.startsBlank_eq]
    have hphrase := overPhrase_append f.conPaso_phrase hstart hread
    change (overPhrase _ ["con".toList, "paso".toList] _ <|> _) = _
    rw [Frame.ending, hphrase]
    rfl

/-- Nothing is read off the end of a header that starts within the last value. -/
theorem stepAndEnd_eq_none (hb : IsPart b)
    (hpaso : ¬ ["con".toList, "paso".toList] <:+: keyWords b) {front back : List Char}
    (hcut : b = front ++ back) (hne : back ≠ []) : stepAndEnd (back ++ f.ending step) = none := by
  have htail := f.startsBlank_ending step
  have hwords : ∃ first rest, keyWords (f.ending step) = first :: rest ∧
      first ≠ "paso".toList := by
    cases step with
    | none => exact ⟨_, _, f.hacer_closing.keyWords_eq, by decide⟩
    | some s => exact ⟨_, _, f.keyWords_ending_some s, by decide⟩
  obtain ⟨first, rest, hwords, hfirst⟩ := hwords
  have hphrase : overPhrase (shortest fun step rest => overEnd (some step) rest)
      ["con".toList, "paso".toList] (back ++ f.ending step) = none := by
    refine overPhrase_eq_none (by decide) hb hcut hne htail hpaso ?_
    -- if `con` ends the last value, what follows it does not start with `paso`
    rintro early late hkeys hearly hlate ⟨more, hmore⟩
    rw [hwords] at hmore
    obtain ⟨key, early, rfl⟩ := List.exists_cons_of_ne_nil hearly
    obtain ⟨key', late, rfl⟩ := List.exists_cons_of_ne_nil hlate
    obtain rfl : key' = first := (List.cons.inj hmore).1
    obtain rfl | ⟨x, early, rfl⟩ : early = [] ∨ ∃ x xs, early = x :: xs := by
      cases early <;> simp
    · exact hfirst (by simpa using (List.cons.inj (List.cons.inj hkeys).2).1.symm)
    · simp at hkeys
  change (overPhrase _ ["con".toList, "paso".toList] _ <|> _) = _
  subst hcut
  rw [hphrase, overEnd_eq_none hne (hb.endsBlank_eq hne) htail (by simp [hwords])]
  rfl

theorem boundsAndStep_append {gap : List Char} (hgap : ∀ c ∈ gap, isBlank c = true)
    (ha : IsPart a) (hb : IsPart b) (hstep : ∀ s ∈ step, IsPart s)
    (hhasta : "hasta".toList ∉ keyWords a)
    (hpaso : ¬ ["con".toList, "paso".toList] <:+: keyWords b) :
    boundsAndStep v (gap ++ (a ++ (f.hasta ++ (b ++ f.ending step)))) =
      some ⟨v, a, b, step⟩ := by
  have hlast : shortest (fun last rest =>
      (stepAndEnd rest).map fun step => (⟨v, a, last, step⟩ : CountedLoop))
      (b ++ f.ending step) = some ⟨v, a, b, step⟩ := by
    refine shortest_append hb (fun front back hcut hne => ?_) ?_
    · rw [stepAndEnd_eq_none hb hpaso hcut hne]
      rfl
    · rw [stepAndEnd_ending hstep]
      rfl
  have hstart : startsBlank (a ++ (f.hasta ++ (b ++ f.ending step))) = false := by
    rw [startsBlank_append ha.ne_nil, ha.startsBlank_eq]
  refine overBlanks_append hgap hstart (shortest_append ha (fun front back hcut hne => ?_) ?_)
  · have hlacks : ¬ ["hasta".toList] <:+: keyWords a := fun h =>
      hhasta (h.subset List.mem_cons_self)
    refine overPhrase_eq_none (by decide) ha hcut hne (f.hasta_phrase.startsBlank_append _) hlacks
      ?_
    -- a single keyword does not go on in what follows
    intro early late hkeys hearly hlate
    have hlength := congrArg List.length hkeys
    have hearly := List.length_pos_iff.2 hearly
    have hlate := List.length_pos_iff.2 hlate
    simp only [List.length_append, List.length_singleton] at hlength
    omega
  · have hstart : startsBlank (b ++ f.ending step) = false := by
      rw [startsBlank_append hb.ne_nil, hb.startsBlank_eq]
    exact overPhrase_append f.hasta_phrase hstart hlast

/-- **A header is split into the parts that it was written with.** -/
theorem ofText?_header (f : Frame) (hv : v ≠ []) (hword : ∀ c ∈ v, isLooseWordChar c = true)
    (ha : IsPart a) (hb : IsPart b) (hstep : ∀ s ∈ step, IsPart s)
    (hhasta : "hasta".toList ∉ keyWords a)
    (hpaso : ¬ ["con".toList, "paso".toList] <:+: keyWords b) :
    ofText? (f.header v a b step) = some ⟨v, a, b, step⟩ := by
  obtain ⟨para, gap, hpara, hkey, hgapne, hgap⟩ := f.para_opening.exists_append
  obtain ⟨left, sign, right, harrow, hsign, hleft, hright⟩ := f.exists_arrow
  have hbounds := boundsAndStep_append (f := f) (v := v) hright ha hb hstep hhasta hpaso
  have hafter : ∀ t, (left ++ (sign ++ t)).head?.any isLooseWordChar = false := fun t =>
    noWord_blanks_append hleft (by obtain rfl | rfl := hsign <;> rfl)
  have hskip : ∀ t, skipBlanks (left ++ (sign ++ t)) = sign ++ t := fun t =>
    skipBlanks_append hleft (by obtain rfl | rfl := hsign <;> rfl)
  simp only [ofText?, Frame.header, hpara, harrow, List.append_assoc,
    splitKey?_eq_some_iff.2 ⟨hkey, rfl⟩,
    skipSomeBlanks?_append hgap hgapne (startsBlank_of_word hv hword _),
    splitWord?_append hv hword (hafter _), hskip, Option.bind_eq_bind, Option.bind_some]
  obtain rfl | rfl := hsign <;> exact hbounds

theorem stepCode_eq (hstep : ∀ s ∈ step, IsPart s) :
    stepCode ⟨v, a, b, step⟩ = (step.map Expr.expression).getD "1".toList := by
  cases step with
  | none => rfl
  | some s =>
    have hs : IsPart s := hstep s rfl
    simp [stepCode, hs.trimmed, hs.ne_nil]

end CountedLoop

/-- **The header of a counted loop is split exactly into its parts.**  The first value may hold any
words but `hasta`, the last value any but `con paso` in a row, and the step any; whatever their case
and the blanks around them, the loop is built from the parts as they were written, counts down if
its converted step starts with a minus sign, and declares no name. -/
theorem countedLoop?_header (f : CountedLoop.Frame) (names : Names) {v a b : List Char}
    {step : Option (List Char)} (hv : v ≠ []) (hword : ∀ c ∈ v, isWordChar c = true)
    (ha : IsPart a) (hb : IsPart b) (hstep : ∀ s ∈ step, IsPart s)
    (hhasta : "hasta".toList ∉ keyWords a)
    (hpaso : ¬ ["con".toList, "paso".toList] <:+: keyWords b) :
    let line := f.header v a b step
    let stepCode := (step.map Expr.expression).getD "1".toList
    let code := "for (".toList ++ (if names.contains v then [] else "let ".toList) ++ v ++
      " = ".toList ++ Expr.expression a ++ "; ".toList ++ v ++
      (if stepCode.head? = some '-' then " >= ".toList else " <= ".toList) ++ Expr.expression b ++
      "; ".toList ++ v ++ " += ".toList ++ stepCode ++ ") \x7b".toList
    countedLoop? line names = some code ∧
      ∀ (cx : LineContext) (l : SourceLine) (depth : Nat), l.code = line → cx.scope.names = names →
        cx.convertKind l depth .countedLoop =
          (.line depth code (depth + 1),
            { cx with scope := ⟨names, ⟨.countedLoop, l.num⟩ :: cx.scope.blocks⟩ }) := by
  intro line stepCode code
  have hloose : ∀ c ∈ v, isLooseWordChar c = true := fun c hc =>
    isLooseWordChar_iff.2 (.inl (hword c hc))
  have hcode : CountedLoop.code ⟨v, a, b, step⟩ names = code := by
    unfold CountedLoop.code
    simp only [CountedLoop.stepCode_eq hstep, ha.trimmed, hb.trimmed, code, stepCode]
  have hloop : countedLoop? line names = some code := by
    rw [countedLoop?, CountedLoop.ofText?_header f hv hloose ha hb hstep hhasta hpaso,
      Option.map_some, hcode]
  refine ⟨hloop, fun cx l depth hl hnames => ?_⟩
  simp only [LineContext.convertKind, hl, hnames, hloop, LineContext.openBlock, Scope.push]

/-- The parts hold the keywords in places where they do not count, also `con` right before
`Con Paso`. -/
theorem countedLoop?_header_with_keywords_in_parts :
    let line := "Para i <- hacer - paso Hasta hasta + con Con Paso -n con paso Hacer".toList
    let code := "for (i = hacer - paso; i >= hasta + con; i += -n con paso) \x7b".toList
    let names : Names := ⟨["i".toList]⟩
    let cx (blocks : List OpenBlock) : LineContext := ⟨⟨names, blocks⟩, .empty, ⟨true⟩⟩
    ("hasta".toList ∉ keyWords "hacer - paso".toList ∧
      ¬ ["con".toList, "paso".toList] <:+: keyWords "hasta + con".toList) ∧
    countedLoop? line names = some code ∧
      (cx []).convertKind ⟨4, line, line, lower line⟩ 1 .countedLoop =
        (.line 1 code 2, cx [⟨.countedLoop, 4⟩]) := by
  intro line code names cx
  have hhasta : "hasta".toList ∉ keyWords "hacer - paso".toList := by decide
  have hpaso : ¬ ["con".toList, "paso".toList] <:+: keyWords "hasta + con".toList := by decide
  have hstep : ∀ s ∈ some "-n con paso".toList, IsPart s := by
    rintro s ⟨⟩
    exact ⟨by decide, by decide, by decide⟩
  have hline : CountedLoop.Frame.standard.header "i".toList "hacer - paso".toList
      "hasta + con".toList (some "-n con paso".toList) = line := by decide
  obtain ⟨hloop, hfeed⟩ := countedLoop?_header .standard names (v := "i".toList) (by decide)
    (List.all_eq_true.1 (by decide)) ⟨by decide, by decide, by decide⟩
    ⟨by decide, by decide, by decide⟩ hstep hhasta hpaso
  have hfeed := hfeed (cx []) ⟨4, line, line, lower line⟩ 1 hline.symm rfl
  rw [hline] at hloop
  obtain ⟨text, htext, hloop, hfeed⟩ : ∃ text, text = code ∧ countedLoop? line names = some text ∧
      (cx []).convertKind ⟨4, line, line, lower line⟩ 1 .countedLoop =
        (.line 1 text 2, cx [⟨.countedLoop, 4⟩]) :=
    ⟨_, by decide +kernel, hloop, hfeed⟩
  subst htext
  exact ⟨⟨hhasta, hpaso⟩, hloop, hfeed⟩

end Header

end Pseudocode
