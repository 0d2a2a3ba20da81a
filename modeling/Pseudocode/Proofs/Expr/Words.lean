import Pseudocode.Proofs.Expr.Rewriting

/-!
# Words under replacement

A text falls into words of ASCII letters, digits and underscores, and the characters between them.
A pattern that occurs only where a word starts and takes the whole word maps the text word by word.
Maps of words compose, so two of them commute if they commute on each word.

* `mapWords` : maps the words of a text and copies the characters between them.
* `mapWords_mapWords` : **words that are mapped twice are mapped once by the composition.**
* `AtWords` : a pattern occurs in a text only where a word starts.
* `TakesWords.replaceAll_eq` : such a pattern that takes whole words maps words.
* `Substitution.Commutes.of_disjoint` : substitutions for different words commute.
* `wordPattern_replaceAll_eq`, `letterPattern_replaceAll_eq` : the patterns for words map words.
-/

namespace Pseudocode

namespace Expr

/-- All characters of the text are word characters. -/
def IsWord (w : List Char) : Prop := ∀ c ∈ w, Text.isWordChar c = true

instance (w : List Char) : Decidable (IsWord w) := List.decidableBAll _ _

/-- Maps the words of a text, each as far as it goes; `held` is the word that is being read. -/
def mapWordsFrom (f : List Char → List Char) : (held : List Char) → List Char → List Char
  | held, [] => f held
  | held, c :: cs =>
    if Text.isWordChar c then mapWordsFrom f (held ++ [c]) cs
    else f held ++ c :: mapWordsFrom f [] cs

/-- Maps the words of a text and copies the characters between them; between two such characters
stands the empty word. -/
def mapWords (f : List Char → List Char) (s : List Char) : List Char := mapWordsFrom f [] s

variable {f g : List Char → List Char} {w u s t x : List Char} {c : Char}

theorem mapWordsFrom_word (held : List Char) (hw : IsWord w) (s : List Char) :
    mapWordsFrom f held (w ++ s) = mapWordsFrom f (held ++ w) s := by
  induction w generalizing held with
  | nil => rw [List.append_nil, List.nil_append]
  | cons c w ih =>
    obtain ⟨hc, hw⟩ := List.forall_mem_cons.1 hw
    rw [List.cons_append, mapWordsFrom, if_pos hc, ih _ hw, List.append_assoc,
      List.singleton_append]

/-- **Words end at every other character.** -/
theorem mapWordsFrom_append_cons (held x : List Char) (hc : Text.isWordChar c = false)
    (s : List Char) :
    mapWordsFrom f held (x ++ c :: s) = mapWordsFrom f held x ++ c :: mapWords f s := by
  induction x generalizing held with
  | nil => simp [mapWordsFrom, mapWords, hc]
  | cons d x ih =>
    rw [List.cons_append, mapWordsFrom, mapWordsFrom]
    split
    · exact ih _
    · rw [ih, List.append_assoc, List.cons_append]

theorem mapWords_append_cons (x : List Char) (hc : Text.isWordChar c = false) (s : List Char) :
    mapWords f (x ++ c :: s) = mapWords f x ++ c :: mapWords f s :=
  mapWordsFrom_append_cons [] x hc s

theorem mapWords_word (hw : IsWord w) : mapWords f w = f w := by
  have h := mapWordsFrom_word (f := f) [] hw []
  rwa [List.append_nil, List.nil_append] at h

theorem mapWords_nil (hnil : f [] = []) : mapWords f [] = [] :=
  (mapWords_word (List.forall_mem_nil _)).trans hnil

theorem mapWords_cons (hnil : f [] = []) (hc : Text.isWordChar c = false) (s : List Char) :
    mapWords f (c :: s) = c :: mapWords f s := by
  have h := mapWords_append_cons (f := f) [] hc s
  rwa [mapWords_word (List.forall_mem_nil _), hnil] at h

theorem mapWords_append (hnil : f [] = []) (hw : IsWord w) (hs : NoWord s.head?) :
    mapWords f (w ++ s) = f w ++ mapWords f s := by
  cases s with
  | nil => rw [List.append_nil, mapWords_word hw, mapWords_nil hnil, List.append_nil]
  | cons c s =>
    have hc : Text.isWordChar c = false := by simpa [NoWord] using hs
    rw [mapWords_append_cons w hc, mapWords_word hw, mapWords_cons hnil hc]

/-- A text, word by word. -/
inductive Worded : List Char → Prop
  | word {w : List Char} (hw : IsWord w) : Worded w
  | next {w s : List Char} {c : Char} (hw : IsWord w) (hc : Text.isWordChar c = false)
    (hs : Worded s) : Worded (w ++ c :: s)

theorem worded (s : List Char) : Worded s := by
  induction s with
  | nil => exact .word (List.forall_mem_nil _)
  | cons c s ih =>
    cases hc : Text.isWordChar c with
    | false => exact .next (w := []) (List.forall_mem_nil _) hc ih
    | true =>
      cases ih with
      | word hw => exact .word (List.forall_mem_cons.2 ⟨hc, hw⟩)
      | next hw hd hs => exact .next (List.forall_mem_cons.2 ⟨hc, hw⟩) hd hs

theorem word_cases (s : List Char) :
    s = [] ∨ (∃ c t, s = c :: t ∧ Text.isWordChar c = false) ∨
      ∃ w t, s = w ++ t ∧ w ≠ [] ∧ IsWord w ∧ NoWord t.head? := by
  cases worded s with
  | word hw =>
    cases s with
    | nil => exact .inl rfl
    | cons c s => exact .inr (.inr ⟨c :: s, [], by simp, by simp, hw, rfl⟩)
  | @next w t c hw hc hs =>
    cases w with
    | nil => exact .inr (.inl ⟨c, t, rfl, hc⟩)
    | cons d w =>
      exact .inr (.inr ⟨d :: w, c :: t, rfl, by simp, hw, by simpa [NoWord] using hc⟩)

/-- **Words that are mapped twice are mapped once by the composition.** -/
theorem mapWords_mapWords (f g : List Char → List Char) (s : List Char) :
    mapWords f (mapWords g s) = mapWords (fun w => mapWords f (g w)) s := by
  induction worded s with
  | word hw => rw [mapWords_word hw, mapWords_word hw]
  | next hw hc _ ih =>
    rw [mapWords_append_cons _ hc, mapWords_append_cons _ hc, mapWords_append_cons _ hc,
      mapWords_word hw, mapWords_word hw, ih]

theorem mapWords_congr (h : ∀ w, IsWord w → f w = g w) (s : List Char) :
    mapWords f s = mapWords g s := by
  induction worded s with
  | word hw => rw [mapWords_word hw, mapWords_word hw, h _ hw]
  | next hw hc _ ih =>
    rw [mapWords_append_cons _ hc, mapWords_append_cons _ hc, mapWords_word hw, mapWords_word hw,
      h _ hw, ih]

/-! ### Patterns at starts of words -/

/-- The pattern occurs in the text only where a word starts, and sees of what comes before it only
whether a word goes on. -/
structure AtWords (p : Pattern) (s : List Char) : Prop where
  of_noWord : ∀ before t, NoWord before → p before t = p none t
  starts : ∀ before c t, c :: t <:+ s → p before (c :: t) ≠ none →
    NoWord before ∧ Text.isWordChar c = true

namespace AtWords

variable {p : Pattern} {before : Option Char}

theorem of_suffix (h : AtWords p s) (hx : x <:+ s) : AtWords p x :=
  ⟨h.of_noWord, fun before c t ht => h.starts before c t (ht.trans hx)⟩

theorem right (h : AtWords p (x ++ s)) : AtWords p s := h.of_suffix (List.suffix_append x s)

theorem eq_none (h : AtWords p (c :: s)) (before : Option Char)
    (hplace : ¬ NoWord before ∨ Text.isWordChar c = false) : p before (c :: s) = none := by
  by_contra hocc
  obtain ⟨hbefore, hc⟩ := h.starts before c s (List.suffix_refl _) hocc
  obtain hplace | hplace := hplace
  · exact hplace hbefore
  · rw [hc] at hplace
    cases hplace

/-- A text outside words is replaced as if nothing stood before it. -/
theorem replaceFrom_eq (h : AtWords p s) (hplace : NoWord before ∨ NoWord s.head?) :
    replaceFrom p before 0 s = replaceAll p s := by
  cases s with
  | nil => rfl
  | cons c s =>
    have hocc : p before (c :: s) = p none (c :: s) := by
      obtain hbefore | hc := hplace
      · exact h.of_noWord before _ hbefore
      · have hc : Text.isWordChar c = false := by simpa [NoWord] using hc
        rw [h.eq_none before (.inr hc), h.eq_none none (.inr hc)]
    simp only [replaceAll, replaceFrom, hocc]

theorem replaceAll_cons (h : AtWords p (c :: s)) (hc : Text.isWordChar c = false) :
    replaceAll p (c :: s) = c :: replaceAll p s := by
  have hbefore : NoWord (some c) := by simpa [NoWord] using hc
  have hrest := (h.right (x := [c])).replaceFrom_eq (.inl hbefore)
  simp only [replaceAll, replaceFrom, h.eq_none none (.inr hc)]
  rw [hrest, replaceAll]

theorem replaceFrom_inside (h : AtWords p (w ++ s)) (hw : IsWord w) (hbefore : ¬ NoWord before) :
    replaceFrom p before 0 (w ++ s) = w ++ replaceFrom p (w.getLast?.or before) 0 s := by
  induction w generalizing before with
  | nil => rfl
  | cons c w ih =>
    obtain ⟨hc, hw⟩ := List.forall_mem_cons.1 hw
    have hinside : ¬ NoWord (some c) := by simp [NoWord, hc]
    have hcs := ih (h.right (x := [c])) hw hinside
    rw [List.cons_append] at h ⊢
    simp only [replaceFrom, h.eq_none before (.inl hbefore)]
    rw [hcs, Text.getLast?_cons_or, List.cons_append]

theorem replaceAll_word (h : AtWords p (w ++ s)) (hw : IsWord w) (hs : NoWord s.head?)
    (hocc : p none (w ++ s) = none) : replaceAll p (w ++ s) = w ++ replaceAll p s := by
  cases w with
  | nil => rfl
  | cons c w =>
    obtain ⟨hc, hw⟩ := List.forall_mem_cons.1 hw
    have hinside : ¬ NoWord (some c) := by simp [NoWord, hc]
    have hrest := (h.right (x := [c])).replaceFrom_inside hw hinside
    rw [List.cons_append] at hocc ⊢
    simp only [replaceAll, replaceFrom, hocc]
    rw [hrest, h.right.replaceFrom_eq (.inr hs), replaceAll, List.cons_append]

theorem replaceAll_occurrence (h : AtWords p (x ++ s)) (hx : x ≠ []) {v : List Char}
    (hocc : p none (x ++ s) = some (x.length, v)) (hplace : NoWord x.getLast? ∨ NoWord s.head?) :
    replaceAll p (x ++ s) = v ++ replaceAll p s := by
  rw [replaceAll, replaceFrom_occurrence hx hocc, h.right.replaceFrom_eq hplace, replaceAll]

end AtWords

/-! ### Substitutions -/

/-- A substitution for whole words: the words that it concerns, and what replaces them. -/
structure Substitution where
  /-- The word is replaced. -/
  applies : List Char → Bool
  /-- What replaces it. -/
  replacement : List Char
  /-- The empty word is not replaced. -/
  applies_nil : applies [] = false

namespace Substitution

/-- What becomes of a word. -/
def map (σ : Substitution) (w : List Char) : List Char :=
  if σ.applies w then σ.replacement else w

/-- The word given in lower case, in any letter case. -/
def ofKey (key replacement : List Char) (hkey : key ≠ []) : Substitution where
  applies w := w.map Text.keyChar == key
  replacement := replacement
  applies_nil := beq_eq_false_iff_ne.2 hkey.symm

/-- The given letter, exactly as it is spelled. -/
def ofLetter (letter : Char) (replacement : List Char) : Substitution where
  applies w := w == [letter]
  replacement := replacement
  applies_nil := rfl

variable {σ τ : Substitution}

theorem map_nil (σ : Substitution) : σ.map [] = [] := by simp [map, σ.applies_nil]

theorem map_of_applies (h : σ.applies w = true) : σ.map w = σ.replacement := if_pos h

theorem map_of_not_applies (h : σ.applies w = false) : σ.map w = w := by simp [map, h]

/-- The substitution leaves what the other one writes as it is. -/
def Keeps (σ τ : Substitution) : Prop := mapWords σ.map τ.replacement = τ.replacement

instance (σ τ : Substitution) : Decidable (σ.Keeps τ) := inferInstanceAs (Decidable (_ = _))

theorem mapWords_map_of_applies (hkeeps : σ.Keeps τ) (hw : IsWord w) (hτ : τ.applies w = true)
    (hσ : σ.applies w = false) :
    mapWords σ.map (τ.map w) = τ.replacement ∧ mapWords τ.map (σ.map w) = τ.replacement := by
  rw [map_of_applies hτ, map_of_not_applies hσ, mapWords_word hw, map_of_applies hτ]
  exact ⟨hkeeps, rfl⟩

/-- The two substitutions can be made in either order. -/
def Commutes (σ τ : Substitution) : Prop :=
  ∀ s, mapWords σ.map (mapWords τ.map s) = mapWords τ.map (mapWords σ.map s)

/-- **Substitutions for different words commute,** if each keeps what the other one writes. -/
theorem Commutes.of_disjoint (hdisjoint : ∀ w, σ.applies w = true → τ.applies w = false)
    (hσ : σ.Keeps τ) (hτ : τ.Keeps σ) : σ.Commutes τ := by
  intro s
  rw [mapWords_mapWords, mapWords_mapWords]
  refine mapWords_congr (fun w hw => ?_) s
  by_cases happlies : σ.applies w = true
  · obtain ⟨h₁, h₂⟩ := mapWords_map_of_applies hτ hw happlies (hdisjoint w happlies)
    rw [h₁, h₂]
  · rw [Bool.not_eq_true] at happlies
    by_cases happlies' : τ.applies w = true
    · obtain ⟨h₁, h₂⟩ := mapWords_map_of_applies hσ hw happlies' happlies
      rw [h₁, h₂]
    · rw [Bool.not_eq_true] at happlies'
      rw [map_of_not_applies happlies, map_of_not_applies happlies', mapWords_word hw,
        mapWords_word hw, map_of_not_applies happlies, map_of_not_applies happlies']

/-- Two different words in lower case. -/
theorem commutes_ofKey {key key' v v' : List Char} {hkey : key ≠ []} {hkey' : key' ≠ []}
    (hne : key ≠ key') (hkeeps : (ofKey key v hkey).Keeps (ofKey key' v' hkey'))
    (hkeeps' : (ofKey key' v' hkey').Keeps (ofKey key v hkey)) :
    (ofKey key v hkey).Commutes (ofKey key' v' hkey') := by
  refine .of_disjoint (fun w hw => ?_) hkeeps hkeeps'
  obtain rfl : w.map Text.keyChar = key := beq_iff_eq.1 hw
  exact beq_eq_false_iff_ne.2 hne

/-- A word in lower case and a capital letter that does not spell it. -/
theorem commutes_ofKey_ofLetter {key v v' : List Char} {letter : Char} {hkey : key ≠ []}
    (hne : [Text.keyChar letter] ≠ key) (hkeeps : (ofKey key v hkey).Keeps (ofLetter letter v'))
    (hkeeps' : (ofLetter letter v').Keeps (ofKey key v hkey)) :
    (ofKey key v hkey).Commutes (ofLetter letter v') := by
  refine .of_disjoint (fun w hw => beq_eq_false_iff_ne.2 ?_) hkeeps hkeeps'
  rintro rfl
  exact hne (beq_iff_eq.1 hw)

end Substitution

/-- The pattern takes the words of the text that the substitution concerns, as far as they go. -/
def TakesWords (p : Pattern) (σ : Substitution) (s : List Char) : Prop :=
  ∀ w rest, w ++ rest <:+ s → IsWord w → NoWord rest.head? →
    p none (w ++ rest) = if σ.applies w then some (w.length, σ.replacement) else none

section

variable {p : Pattern} {σ : Substitution}

theorem TakesWords.replaceAll_append (h : TakesWords p σ (w ++ s)) (hat : AtWords p (w ++ s))
    (hw : IsWord w) (hs : NoWord s.head?) :
    replaceAll p (w ++ s) = σ.map w ++ replaceAll p s := by
  have hocc := h w s (List.suffix_refl _) hw hs
  cases happlies : σ.applies w with
  | false =>
    rw [happlies, if_neg Bool.false_ne_true] at hocc
    rw [hat.replaceAll_word hw hs hocc, Substitution.map_of_not_applies happlies]
  | true =>
    have hne : w ≠ [] := by
      rintro rfl
      rw [σ.applies_nil] at happlies
      cases happlies
    rw [happlies, if_pos rfl] at hocc
    rw [hat.replaceAll_occurrence hne hocc (.inr hs), Substitution.map_of_applies happlies]

/-- **A pattern that takes whole words maps words.** -/
theorem TakesWords.replaceAll_eq (h : TakesWords p σ s) (hat : AtWords p s) :
    replaceAll p s = mapWords σ.map s := by
  induction worded s with
  | @word w hw =>
    rw [← List.append_nil w] at h hat
    rw [mapWords_word hw, ← List.append_nil w, h.replaceAll_append hat hw rfl, List.append_nil]
    exact List.append_nil _
  | @next w s c hw hc _ ih =>
    have hs : s <:+ w ++ c :: s := (List.suffix_cons c s).trans (List.suffix_append _ _)
    have hrest := ih (fun w' rest hsuffix => h w' rest (hsuffix.trans hs)) (hat.of_suffix hs)
    rw [h.replaceAll_append hat hw (by simpa [NoWord] using hc), hat.right.replaceAll_cons hc,
      hrest, mapWords_append_cons w hc, mapWords_word hw]

end

/-! ### Whole words as patterns -/

theorem atBoundary_of_noWord {before : Option Char} (h : NoWord before) (after : Option Char) :
    Text.atBoundary before after = Text.atBoundary none after := by
  rw [Text.atBoundary, Text.atBoundary, h, Option.any_none]

theorem IsWord.any_head? (hw : IsWord w) (hne : w ≠ []) :
    w.head?.any Text.isWordChar = true := by
  obtain ⟨c, w, rfl⟩ := List.exists_cons_of_ne_nil hne
  exact hw c List.mem_cons_self

theorem IsWord.any_getLast? (hw : IsWord w) (hne : w ≠ []) :
    w.getLast?.any Text.isWordChar = true := by
  rw [List.getLast?_eq_some_getLast hne]
  exact hw _ (List.getLast_mem hne)

/-- What stands for a letter of the word in the text is a word character itself. -/
def SpellsInWords (key s : List Char) : Prop :=
  ∀ c ∈ s, Text.keyChar c ∈ key → Text.isWordChar c = true

/-- Only the long s and the kelvin sign stand for letters without being word characters. -/
theorem spellsInWords_of_notMem {key : List Char} (hkey : IsWord key) (hk : 'k' ∉ key)
    (hs : 's' ∉ key ∨ 'ſ' ∉ s) : SpellsInWords key s := by
  intro c hc hmem
  obtain h | rfl | rfl := Text.isLooseWordChar_iff.1 (hkey _ hmem)
  · exact h
  · obtain hs | hs := hs
    · exact absurd hmem hs
    · exact absurd hc hs
  · exact absurd hmem hk

theorem SpellsInWords.isWord {key read : List Char} (h : SpellsInWords key s) (hsub : read ⊆ s)
    (hread : read.map Text.keyChar = key) : IsWord read := fun c hc =>
  h c (hsub hc) (hread ▸ List.mem_map_of_mem hc)

section

variable {key replacement : List Char} (hkey : key ≠ [])

include hkey

theorem wordPattern_atWords (h : SpellsInWords key s) :
    AtWords (wordPattern key replacement) s where
  of_noWord before t hbefore := by
    simp only [wordPattern, atBoundary_of_noWord hbefore]
  starts before c t hsuffix hocc := by
    obtain ⟨⟨n, v⟩, hocc⟩ := Option.ne_none_iff_exists'.1 hocc
    obtain ⟨read, back, ⟨hread, heq⟩, -, hbefore, -⟩ := wordPattern_eq_some_iff.1 hocc
    have hsub : read ⊆ s :=
      List.Subset.trans (heq ▸ List.subset_append_left read back) hsuffix.subset
    have hword := h.isWord hsub hread
    cases read with
    | nil => exact absurd hread.symm hkey
    | cons d read =>
      obtain ⟨rfl, -⟩ := List.cons.inj heq
      have hc : (some c).any Text.isWordChar = true := hword c List.mem_cons_self
      exact ⟨(atBoundary_iff_noWord_left hc).1 hbefore, hc⟩

theorem wordPattern_takesWords (h : SpellsInWords key s) :
    TakesWords (wordPattern key replacement) (.ofKey key replacement hkey) s := by
  intro w rest hsuffix hw hrest
  by_cases happlies : w.map Text.keyChar = key
  · have hne : w ≠ [] := by
      rintro rfl
      exact hkey happlies.symm
    have hright : Text.atBoundary w.getLast? rest.head? = true := by
      rw [Text.atBoundary, hw.any_getLast? hne, hrest]
      rfl
    have hleft : Text.atBoundary none w.head? = true := by
      rw [Text.atBoundary, hw.any_head? hne]
      rfl
    rw [wordPattern_eq_some_iff.2 ⟨w, rest, ⟨happlies, rfl⟩, hright, hleft, rfl, rfl⟩]
    simp [Substitution.ofKey, happlies]
  · have hnone : wordPattern key replacement none (w ++ rest) = none := by
      by_contra hocc
      obtain ⟨⟨n, v⟩, hocc⟩ := Option.ne_none_iff_exists'.1 hocc
      obtain ⟨read, back, ⟨hread, heq⟩, hright, -⟩ := wordPattern_eq_some_iff.1 hocc
      have hsub : read ⊆ s :=
        List.Subset.trans (heq ▸ List.subset_append_left read back) hsuffix.subset
      have hword := h.isWord hsub hread
      have hne : read ≠ [] := by
        rintro rfl
        exact hkey hread.symm
      have hback := (atBoundary_iff_noWord_right (hword.any_getLast? hne)).1 hright
      exact happlies ((Text.run_append_inj hw hword hrest hback heq).1 ▸ hread)
    simp [Substitution.ofKey, happlies, hnone]

theorem wordPattern_replaceAll_eq (h : SpellsInWords key s) :
    replaceAll (wordPattern key replacement) s =
      mapWords (Substitution.ofKey key replacement hkey).map s :=
  (wordPattern_takesWords hkey h).replaceAll_eq (wordPattern_atWords hkey h)

end

theorem letterPattern_replaceAll_eq {letter : Char} (hletter : Text.isWordChar letter = true)
    (replacement s : List Char) :
    replaceAll (letterPattern letter replacement) s =
      mapWords (Substitution.ofLetter letter replacement).map s := by
  refine TakesWords.replaceAll_eq ?_ ⟨?_, ?_⟩
  · intro w rest _ hw hrest
    cases w with
    | nil =>
      cases rest with
      | nil => rfl
      | cons c rest =>
        have hne : c ≠ letter := by
          rintro rfl
          simp [NoWord, hletter] at hrest
        simp [letterPattern, Substitution.ofLetter, hne]
    | cons c w =>
      have hc := hw c List.mem_cons_self
      cases w with
      | nil =>
        have hright : rest.head?.any Text.isWordChar = false := hrest
        by_cases hne : c = letter <;>
          simp [letterPattern, Substitution.ofLetter, Text.atBoundary, hne, hletter, hright]
      | cons d w =>
        have hd := hw d (by simp)
        simp [letterPattern, Substitution.ofLetter, Text.atBoundary, hc, hd]
  · intro before t hbefore
    simp only [letterPattern, atBoundary_of_noWord hbefore]
  · intro before c t _ hocc
    have hplace := (ite_ne_right_iff.1 hocc).1
    simp only [Bool.and_eq_true, decide_eq_true_eq] at hplace
    obtain ⟨⟨rfl, hbefore⟩, -⟩ := hplace
    have hletter : (some c).any Text.isWordChar = true := hletter
    exact ⟨(atBoundary_iff_noWord_left hletter).1 hbefore, hletter⟩

end Expr

end Pseudocode
