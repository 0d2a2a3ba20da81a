import Mathlib.Data.List.Infix
import Pseudocode.Proofs.Text

/-!
# Words between blanks

Statements are words with blanks between them, whatever the blanks are and however many.  Where a
text is put together from parts with a blank between them, its words are those of the parts.

* `words`, `keyWords` : the words of a text, as they are written and as keywords.
* `words_append` : **the words of two texts one after the other.**
* `exists_of_words_eq_cons` : where the first word of a text stands.
* `IsOpening`, `IsPhrase`, `IsClosing` : keywords at the start, in the middle and at the end of a
  statement, with the blanks around them.
-/

namespace Pseudocode

namespace Text

variable {s t : List Char} {c : Char}

/-- The words of a text between its blanks. -/
def words (s : List Char) : List (List Char) := (s.splitOnP isBlank).filter (!·.isEmpty)

/-- The words of a text between its blanks, in the letters of keywords. -/
def keyWords (s : List Char) : List (List Char) := (words s).map (·.map keyChar)

/-- The text starts with a blank. -/
def startsBlank (s : List Char) : Bool := s.head?.any isBlank

/-- The text ends with a blank. -/
def endsBlank (s : List Char) : Bool := s.getLast?.any isBlank

/-! ### Blanks -/

theorem startsBlank_append (hne : s ≠ []) (t : List Char) :
    startsBlank (s ++ t) = startsBlank s := by
  rw [startsBlank, List.head?_append_of_ne_nil s hne, startsBlank]

theorem endsBlank_append (s : List Char) (hne : t ≠ []) : endsBlank (s ++ t) = endsBlank t := by
  rw [endsBlank, List.getLast?_append_of_ne_nil s hne, endsBlank]

theorem startsBlank_of_noBlank (h : ∀ c ∈ s, isBlank c = false) : startsBlank s = false := by
  cases s with
  | nil => rfl
  | cons c cs => exact h c List.mem_cons_self

theorem endsBlank_of_noBlank (h : ∀ c ∈ s, isBlank c = false) : endsBlank s = false := by
  obtain rfl | ⟨s, c, rfl⟩ := List.eq_nil_or_concat' s
  · rfl
  · simpa [endsBlank] using h c (by simp)

theorem ne_nil_of_startsBlank (h : startsBlank s = true) : s ≠ [] := by
  rintro rfl
  cases h

theorem skipBlanks_append (hs : ∀ c ∈ s, isBlank c = true) (ht : startsBlank t = false) :
    skipBlanks (s ++ t) = t :=
  dropWhile_run_append hs ht

theorem skipSomeBlanks?_append (hs : ∀ c ∈ s, isBlank c = true) (hne : s ≠ [])
    (ht : startsBlank t = false) : skipSomeBlanks? (s ++ t) = some t := by
  cases s with
  | nil => exact absurd rfl hne
  | cons c cs =>
    obtain ⟨hc, hcs⟩ := List.forall_mem_cons.1 hs
    rw [List.cons_append, skipSomeBlanks?, if_pos hc, skipBlanks_append hcs ht]

theorem exists_of_skipSomeBlanks? (h : skipSomeBlanks? s = some t) :
    ∃ gap, s = gap ++ t ∧ gap ≠ [] ∧ (∀ c ∈ gap, isBlank c = true) ∧ startsBlank t = false := by
  cases s with
  | nil => cases h
  | cons c cs =>
    simp only [skipSomeBlanks?] at h
    split at h
    · rename_i hc
      cases h
      obtain ⟨run, rest, rfl, hrun, hrest⟩ := exists_run isBlank cs
      rw [skipBlanks, dropWhile_run_append hrun hrest]
      exact ⟨c :: run, rfl, List.cons_ne_nil c run, List.forall_mem_cons.2 ⟨hc, hrun⟩, hrest⟩
    · cases h

theorem skipSomeBlanks?_eq_none (h : startsBlank s = false) : skipSomeBlanks? s = none := by
  cases s with
  | nil => rfl
  | cons c cs => exact if_neg (Bool.eq_false_iff.1 h)

theorem dropLastBlanks?_append (hs : endsBlank s = false) (ht : ∀ c ∈ t, isBlank c = true)
    (hne : t ≠ []) : dropLastBlanks? (s ++ t) = some s := by
  have hblank : ∀ c ∈ t.reverse, isBlank c = true := fun c hc => ht c (List.mem_reverse.1 hc)
  have hstart : startsBlank s.reverse = false := by rwa [startsBlank, List.head?_reverse]
  rw [dropLastBlanks?, List.reverse_append,
    skipSomeBlanks?_append hblank (by simpa using hne) hstart, Option.map_some,
    List.reverse_reverse]

theorem dropLastBlanks?_eq_none (h : endsBlank s = false) : dropLastBlanks? s = none := by
  have hstart : startsBlank s.reverse = false := by rwa [startsBlank, List.head?_reverse]
  rw [dropLastBlanks?, skipSomeBlanks?_eq_none hstart, Option.map_none]

theorem any_isBlank_of_any_isSpace {x : Option Char} (h : x.any isSpace = false) :
    x.any isBlank = false := by
  cases x with
  | none => rfl
  | some c => exact isBlank_of_isSpace h

theorem startsBlank_of_word (hne : s ≠ []) (h : ∀ c ∈ s, isLooseWordChar c = true)
    (t : List Char) : startsBlank (s ++ t) = false := by
  rw [startsBlank_append hne]
  exact startsBlank_of_noBlank fun c hc => isBlank_of_isLooseWordChar (h c hc)

theorem isBlank_of_keyChar (h : isBlank (keyChar c) = false) : isBlank c = false := by
  refine Bool.eq_false_iff.2 fun hc => ?_
  simp only [isBlank, Bool.or_eq_true, beq_iff_eq] at hc
  obtain (((rfl | rfl) | rfl) | rfl) | rfl := hc <;> exact absurd h (by decide)

/-! ### The words of a text -/

theorem words_append_cons (s t : List Char) (h : isBlank c = true) :
    words (s ++ c :: t) = words s ++ words t := by
  rw [words, List.splitOnP_append_cons _ _ h, List.filter_append, words, words]

theorem words_cons (t : List Char) (h : isBlank c = true) : words (c :: t) = words t :=
  words_append_cons [] t h

theorem words_of_noBlank (hne : s ≠ []) (h : ∀ c ∈ s, isBlank c = false) : words s = [s] := by
  rw [words, List.splitOnP_eq_singleton h]
  simp [hne]

theorem words_blanks_append (h : ∀ c ∈ s, isBlank c = true) (t : List Char) :
    words (s ++ t) = words t := by
  induction s with
  | nil => rfl
  | cons c cs ih =>
    obtain ⟨hc, hcs⟩ := List.forall_mem_cons.1 h
    rw [List.cons_append, words_cons _ hc, ih hcs]

/-- **The words of two texts one after the other,** if a blank stands where they meet. -/
theorem words_append (h : endsBlank s = true ∨ startsBlank t = true) :
    words (s ++ t) = words s ++ words t := by
  obtain h | h := h
  · obtain rfl | ⟨s, c, rfl⟩ := List.eq_nil_or_concat' s
    · cases h
    · have hc : isBlank c = true := by simpa [endsBlank] using h
      rw [List.append_assoc, List.singleton_append, words_append_cons _ _ hc,
        words_append_cons _ _ hc, show words [] = [] from rfl, List.append_nil]
  · cases t with
    | nil => cases h
    | cons c t =>
      have hc : isBlank c = true := h
      rw [words_append_cons _ _ hc, words_cons _ hc]

theorem keyWords_append (h : endsBlank s = true ∨ startsBlank t = true) :
    keyWords (s ++ t) = keyWords s ++ keyWords t := by
  rw [keyWords, words_append h, List.map_append, keyWords, keyWords]

theorem exists_of_words_eq_cons {word : List Char} {rest : List (List Char)}
    (h : words s = word :: rest) :
    ∃ gap t, s = gap ++ (word ++ t) ∧ (∀ c ∈ gap, isBlank c = true) ∧ word ≠ [] ∧
      (∀ c ∈ word, isBlank c = false) ∧ (t = [] ∨ startsBlank t = true) ∧ words t = rest := by
  obtain ⟨gap, body, rfl, hgap, hbody⟩ := exists_run isBlank s
  -- the word goes on to the next blank
  obtain ⟨w, t, rfl, hw, hnext⟩ := exists_run (!isBlank ·) body
  have hw : ∀ c ∈ w, isBlank c = false := fun c hc => by simpa using hw c hc
  have ht : t = [] ∨ startsBlank t = true := by
    cases t with
    | nil => exact .inl rfl
    | cons c t => exact .inr (by simpa [startsBlank] using hnext)
  rw [words_blanks_append hgap] at h
  have hne : w ≠ [] := by
    rintro rfl
    obtain rfl | ht := ht
    · cases h
    · exact absurd ht (Bool.eq_false_iff.1 hbody)
  have hwords : words (w ++ t) = w :: words t := by
    obtain rfl | ht := ht
    · rw [List.append_nil, words_of_noBlank hne hw]
      rfl
    · rw [words_append (.inr ht), words_of_noBlank hne hw, List.singleton_append]
  obtain ⟨rfl, rfl⟩ := List.cons.inj (hwords.symm.trans h)
  exact ⟨gap, t, rfl, hgap, hne, hw, ht, rfl⟩

theorem exists_of_keyWords_eq_cons {key : List Char} {keys : List (List Char)}
    (h : keyWords s = key :: keys) :
    ∃ gap word t, s = gap ++ (word ++ t) ∧ (∀ c ∈ gap, isBlank c = true) ∧
      word.map keyChar = key ∧ word ≠ [] ∧ (∀ c ∈ word, isBlank c = false) ∧
      (t = [] ∨ startsBlank t = true) ∧ keyWords t = keys := by
  obtain ⟨word, rest, hwords, rfl, rfl⟩ := List.map_eq_cons_iff.1 h
  obtain ⟨gap, t, rfl, hgap, hne, hword, ht, rfl⟩ := exists_of_words_eq_cons hwords
  exact ⟨gap, word, t, rfl, hgap, rfl, hne, hword, ht, rfl⟩

theorem exists_mem_words (hmem : c ∈ s) (hc : isBlank c = false) : ∃ word ∈ words s, c ∈ word := by
  induction s with
  | nil => cases hmem
  | cons d cs ih =>
    by_cases hd : isBlank d = true
    · have hcs : c ∈ cs := (List.mem_cons.1 hmem).resolve_left fun h => by simp_all
      rw [words_cons _ hd]
      exact ih hcs
    · obtain ⟨piece, pieces, hcs⟩ := List.exists_cons_of_ne_nil (List.splitOnP_ne_nil isBlank cs)
      have hwords : words (d :: cs) = (d :: piece) :: pieces.filter (!·.isEmpty) := by
        rw [words, List.splitOnP_cons_eq_if_modifyHead, if_neg hd, hcs]
        rfl
      rw [hwords]
      obtain rfl | hmem := List.mem_cons.1 hmem
      · exact ⟨_, List.mem_cons_self, List.mem_cons_self⟩
      · obtain ⟨word, hword, hin⟩ := ih hmem
        rw [words, hcs, List.mem_filter] at hword
        obtain ⟨hword, hne⟩ := hword
        obtain rfl | hword := List.mem_cons.1 hword
        · exact ⟨_, List.mem_cons_self, List.mem_cons_of_mem d hin⟩
        · exact ⟨word, List.mem_cons_of_mem _ (List.mem_filter.2 ⟨hword, hne⟩), hin⟩

theorem isBlank_of_keyWords_eq_nil (h : keyWords s = []) : ∀ c ∈ s, isBlank c = true := by
  intro c hmem
  by_contra hc
  obtain ⟨word, hword, -⟩ := exists_mem_words hmem (Bool.eq_false_iff.2 hc)
  rw [List.map_eq_nil_iff.1 h] at hword
  cases hword

theorem keyWords_ne_nil (hne : s ≠ []) (hends : endsBlank s = false) : keyWords s ≠ [] := by
  intro h
  obtain rfl | ⟨s, c, rfl⟩ := List.eq_nil_or_concat' s
  · exact hne rfl
  · have hc : isBlank c = true := isBlank_of_keyWords_eq_nil h c (by simp)
    simp [endsBlank, hc] at hends

/-! ### Keywords in a statement -/

/-- The keyword is a word that blanks can stand around. -/
def isKey (key : List Char) : Bool := !key.isEmpty && key.all (!isBlank ·)

theorem keyWords_of_spelled {key word : List Char} (hkey : isKey key = true)
    (hword : word.map keyChar = key) : keyWords word = [key] := by
  subst hword
  simp only [isKey, Bool.and_eq_true, Bool.not_eq_true', List.isEmpty_eq_false_iff, ne_eq,
    List.map_eq_nil_iff, List.all_eq_true] at hkey
  obtain ⟨hne, hblank⟩ := hkey
  have hblank : ∀ c ∈ word, isBlank c = false := fun c hc =>
    isBlank_of_keyChar (hblank _ (List.mem_map_of_mem hc))
  rw [keyWords, words_of_noBlank hne hblank]
  rfl

variable {key : List Char} {keys : List (List Char)}

/-- The text consists of the given keywords, at the start of a statement. -/
structure IsOpening (keys : List (List Char)) (t : List Char) : Prop where
  starts : startsBlank t = false
  ends : endsBlank t = true
  keyWords_eq : keyWords t = keys

/-- The text consists of the given keywords, in the middle of a statement. -/
structure IsPhrase (keys : List (List Char)) (t : List Char) : Prop where
  starts : startsBlank t = true
  ends : endsBlank t = true
  keyWords_eq : keyWords t = keys

/-- The text consists of the given keywords, at the end of a statement. -/
structure IsClosing (keys : List (List Char)) (t : List Char) : Prop where
  starts : startsBlank t = true
  ends : endsBlank t = false
  keyWords_eq : keyWords t = keys

theorem IsOpening.exists_append (h : IsOpening [key] t) :
    ∃ word gap, t = word ++ gap ∧ word.map keyChar = key ∧ gap ≠ [] ∧
      ∀ c ∈ gap, isBlank c = true := by
  obtain ⟨before, word, gap, rfl, hbefore, hword, hne, hblank, -, hgap⟩ :=
    exists_of_keyWords_eq_cons h.keyWords_eq
  have hstarts := h.starts
  have hends := h.ends
  -- the keyword stands at the start and not at the end
  obtain rfl : before = [] := by
    cases before with
    | nil => rfl
    | cons c before => exact absurd (hbefore c List.mem_cons_self) (Bool.eq_false_iff.1 hstarts)
  refine ⟨word, gap, rfl, hword, ?_, isBlank_of_keyWords_eq_nil hgap⟩
  rintro rfl
  rw [List.nil_append, List.append_nil, endsBlank_of_noBlank hblank] at hends
  cases hends

theorem exists_append_of_startsBlank (hstarts : startsBlank t = true)
    (h : keyWords t = key :: keys) :
    ∃ gap word rest, t = gap ++ (word ++ rest) ∧ (∀ c ∈ gap, isBlank c = true) ∧ gap ≠ [] ∧
      word.map keyChar = key ∧ word ≠ [] ∧ (∀ c ∈ word, isBlank c = false) ∧
      (rest = [] ∨ startsBlank rest = true) ∧ keyWords rest = keys := by
  obtain ⟨gap, word, rest, rfl, hgap, hword, hne, hblank, hrest, hkeys⟩ :=
    exists_of_keyWords_eq_cons h
  refine ⟨gap, word, rest, rfl, hgap, ?_, hword, hne, hblank, hrest, hkeys⟩
  rintro rfl
  rw [List.nil_append, startsBlank_append hne, startsBlank_of_noBlank hblank] at hstarts
  cases hstarts

theorem IsPhrase.exists_cons (h : IsPhrase (key :: keys) t) :
    ∃ gap word rest, t = gap ++ (word ++ rest) ∧ (∀ c ∈ gap, isBlank c = true) ∧ gap ≠ [] ∧
      word.map keyChar = key ∧ word ≠ [] ∧ startsBlank word = false ∧ IsPhrase keys rest := by
  obtain ⟨gap, word, rest, rfl, hgap, hgapne, hword, hne, hblank, hrest, hkeys⟩ :=
    exists_append_of_startsBlank h.starts h.keyWords_eq
  have hends := h.ends
  rw [endsBlank_append _ (List.append_ne_nil_of_left_ne_nil hne rest)] at hends
  obtain rfl | hrest := hrest
  · -- the phrase ends with a blank, so the word does not end it
    rw [List.append_nil, endsBlank_of_noBlank hblank] at hends
    cases hends
  · rw [endsBlank_append _ (ne_nil_of_startsBlank hrest)] at hends
    exact ⟨gap, word, rest, rfl, hgap, hgapne, hword, hne, startsBlank_of_noBlank hblank, hrest,
      hends, hkeys⟩

theorem IsPhrase.startsBlank_append (h : IsPhrase keys t) (s : List Char) :
    startsBlank (t ++ s) = true := by
  rw [Text.startsBlank_append (ne_nil_of_startsBlank h.starts)]
  exact h.starts

theorem IsClosing.exists_cons (h : IsClosing (key :: keys) t) :
    ∃ gap word rest, t = gap ++ (word ++ rest) ∧ (∀ c ∈ gap, isBlank c = true) ∧ gap ≠ [] ∧
      word.map keyChar = key ∧ word ≠ [] ∧ (∀ c ∈ word, isBlank c = false) ∧
      (rest = [] ∧ keys = [] ∨ IsClosing keys rest) := by
  obtain ⟨gap, word, rest, rfl, hgap, hgapne, hword, hne, hblank, hrest, rfl⟩ :=
    exists_append_of_startsBlank h.starts h.keyWords_eq
  refine ⟨gap, word, rest, rfl, hgap, hgapne, hword, hne, hblank, ?_⟩
  obtain rfl | hrest := hrest
  · exact .inl ⟨rfl, rfl⟩
  · have hends := h.ends
    rw [← List.append_assoc, endsBlank_append _ (ne_nil_of_startsBlank hrest)] at hends
    exact .inr ⟨hrest, hends, rfl⟩

theorem not_isClosing_nil : ¬ IsClosing [] t := fun h =>
  keyWords_ne_nil (ne_nil_of_startsBlank h.starts) h.ends h.keyWords_eq

theorem IsClosing.exists_last (h : IsClosing [key] t) :
    ∃ gap word, t = gap ++ word ∧ (∀ c ∈ gap, isBlank c = true) ∧ gap ≠ [] ∧
      word.map keyChar = key ∧ ∀ c ∈ word, isBlank c = false := by
  obtain ⟨gap, word, rest, rfl, hgap, hgapne, hword, -, hblank, ⟨rfl, -⟩ | hrest⟩ := h.exists_cons
  · exact ⟨gap, word, by rw [List.append_nil], hgap, hgapne, hword, hblank⟩
  · exact absurd hrest not_isClosing_nil

end Text

end Pseudocode
