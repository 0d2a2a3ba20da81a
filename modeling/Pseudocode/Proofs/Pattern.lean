import Mathlib.Data.List.Basic
import Pseudocode.Pattern
import Pseudocode.Proofs.Scan.Literals

/-!
# Replacing patterns

What a replacement does to a whole text follows from what the pattern does at a place.

* `replaceAll_subset` : a replacement adds no characters but those the pattern adds.
* `replaceAll_append` : a pattern that stops at quotes is replaced on each side of a quote alone.
* `replaceAll_eq_mapCode` : **such a pattern is replaced in code only, if no literal holds it.**
* `wordPattern_stopsAtQuotes` : a whole word stops at quotes.
-/

namespace Pseudocode

open Scan

namespace Pattern

/-- Every replacement consists of characters of the text and of the given ones. -/
def AddsOnly (p : Pattern) (added : List Char) : Prop :=
  ∀ before s n replacement, p before s = some (n, replacement) → replacement ⊆ s ++ added

end Pattern

theorem replaceFrom_subset {p : Pattern} {added : List Char} (hp : p.AddsOnly added)
    (before : Option Char) (skip : Nat) (s : List Char) :
    replaceFrom p before skip s ⊆ s ++ added := by
  induction s generalizing before skip with
  | nil => simp [replaceFrom]
  | cons c cs ih =>
    have hrest : ∀ b k, replaceFrom p b k cs ⊆ c :: cs ++ added := fun b k =>
      List.subset_cons_of_subset c (ih b k)
    cases skip with
    | succ skip => exact hrest (some c) skip
    | zero =>
      simp only [replaceFrom]
      split
      · rename_i n replacement h
        exact List.append_subset.2 ⟨hp _ _ _ _ h, hrest _ _⟩
      · exact List.cons_subset.2 ⟨by simp, hrest _ _⟩

theorem replaceAll_subset {p : Pattern} {added : List Char} (hp : p.AddsOnly added)
    (s : List Char) : replaceAll p s ⊆ s ++ added :=
  replaceFrom_subset hp none 0 s

theorem replaceFrom_eq_self {p : Pattern} {front s : List Char}
    (h : ∀ start rest, rest ≠ [] → s = start ++ rest → p (front ++ start).getLast? rest = none) :
    replaceFrom p front.getLast? 0 s = s := by
  induction s generalizing front with
  | nil => rfl
  | cons c cs ih =>
    have hc := h [] (c :: cs) (by simp) rfl
    rw [List.append_nil] at hc
    have hcs := @ih (front ++ [c]) fun start rest hne hs => by
      rw [List.append_assoc, List.singleton_append]
      exact h (c :: start) rest hne (by rw [hs, List.cons_append])
    rw [List.getLast?_concat] at hcs
    simp only [replaceFrom, hc, hcs]

theorem replaceAll_eq_self {p : Pattern} {s : List Char}
    (h : ∀ start rest, rest ≠ [] → s = start ++ rest → p start.getLast? rest = none) :
    replaceAll p s = s :=
  @replaceFrom_eq_self p [] s h

/-! ### Patterns that stop at quotes -/

theorem role_isQuote_iff {c : Char} : (role c).isQuote = true ↔ c = '"' ∨ c = '\'' := by
  constructor
  · intro h
    change (Role.ofCode c.toNat).isQuote = true at h
    unfold Role.ofCode at h
    split at h
    · rename_i hc
      exact .inl (Char.toNat_inj.1 hc)
    · rename_i hc
      exact .inr (Char.toNat_inj.1 hc)
    all_goals cases h
  · rintro (rfl | rfl) <;> rfl

theorem quoteFree_of_forall {p : Char → Bool} (hdouble : p '"' = false) (hsingle : p '\'' = false)
    {s : List Char} (h : ∀ c ∈ s, p c = true) : QuoteFree s := by
  intro c hc
  by_contra hq
  have hp := h c hc
  obtain rfl | rfl := role_isQuote_iff.1 (by simpa using hq)
  · rw [hdouble] at hp
    cases hp
  · rw [hsingle] at hp
    cases hp

/-- A quote ends the first text or starts the second one, unless that is empty. -/
def Seam (x y : List Char) : Prop :=
  (∃ c, x.getLast? = some c ∧ (role c).isQuote = true) ∨
    ∀ c, y.head? = some c → (role c).isQuote = true

theorem Seam.of_suffix {x y u : List Char} (h : Seam x y) (hu : u <:+ x) (hne : u ≠ []) :
    Seam u y := by
  obtain ⟨c, hc, hq⟩ | h := h
  · obtain ⟨front, rfl⟩ := hu
    refine .inl ⟨c, ?_, hq⟩
    rwa [List.getLast?_append_of_ne_nil _ hne] at hc
  · exact .inr h

namespace Pattern

/-- Occurrences of the pattern hold no quotes, and quotes count as ends of the text. -/
structure StopsAtQuotes (p : Pattern) : Prop where
  length_le : ∀ before s n replacement, p before s = some (n, replacement) → n ≤ s.length
  at_seam : ∀ before x y, Seam x y → p before (x ++ y) = p before x
  after_quote : ∀ c s, (role c).isQuote = true → p (some c) s = p none s
  at_quote : ∀ before c s, (role c).isQuote = true → p before (c :: s) = none

end Pattern

theorem replaceFrom_append {p : Pattern} (hp : p.StopsAtQuotes) {x y : List Char} (h : Seam x y)
    (before : Option Char) {skip : Nat} (hskip : skip ≤ x.length) :
    replaceFrom p before skip (x ++ y) =
      replaceFrom p before skip x ++ replaceFrom p (x.getLast?.or before) 0 y := by
  induction x generalizing before skip with
  | nil =>
    obtain rfl : skip = 0 := Nat.le_zero.1 hskip
    rfl
  | cons c cs ih =>
    -- nothing is left of `x` behind its last character, so the seam is not needed there
    have hcs : ∀ k ≤ cs.length, replaceFrom p (some c) k (cs ++ y) =
        replaceFrom p (some c) k cs ++ replaceFrom p ((c :: cs).getLast?.or before) 0 y := by
      intro k hk
      rw [Text.getLast?_cons_or]
      cases cs with
      | nil =>
        obtain rfl : k = 0 := Nat.le_zero.1 hk
        rfl
      | cons d ds => exact ih (h.of_suffix (List.suffix_cons c _) (by simp)) (some c) hk
    cases skip with
    | succ skip => exact hcs skip (Nat.le_of_succ_le_succ hskip)
    | zero =>
      have hseam := hp.at_seam before (c :: cs) y h
      rw [List.cons_append] at hseam ⊢
      simp only [replaceFrom, hseam]
      cases hocc : p before (c :: cs) with
      | none => simp only [hcs 0 (Nat.zero_le _), List.cons_append]
      | some occ =>
        -- the occurrence does not reach beyond the seam, so what is skipped lies in `x`
        have hn : occ.1 - 1 ≤ cs.length := by
          have := hp.length_le _ _ _ _ hocc
          simp only [List.length_cons] at this
          omega
        simp only [hcs _ hn, List.append_assoc]

/-- A pattern that stops at quotes is replaced on each side of a quote alone. -/
theorem replaceAll_append {p : Pattern} (hp : p.StopsAtQuotes) {x y : List Char} (h : Seam x y) :
    replaceAll p (x ++ y) = replaceAll p x ++ replaceAll p y := by
  rw [replaceAll, replaceFrom_append hp h none (Nat.zero_le _), Option.or_none]
  congr 1
  cases y with
  | nil => rfl
  | cons c cs =>
    have hbefore : p x.getLast? (c :: cs) = p none (c :: cs) := by
      obtain ⟨d, hd, hq⟩ | h := h
      · rw [hd, hp.after_quote d _ hq]
      · rw [hp.at_quote _ c cs (h c rfl), hp.at_quote _ c cs (h c rfl)]
    simp only [replaceAll, replaceFrom, hbefore]

theorem replaceAll_eq_flatMap {p : Pattern} (hp : p.StopsAtQuotes) (r : Region)
    (held s : List Char) :
    replaceAll p (held.reverse ++ s) =
      (segmentsFrom r held s).flatMap fun segment => replaceAll p segment.symbols := by
  -- a segment ends with a seam in front of an opening quote or behind a closing one
  induction s generalizing r held with
  | nil =>
    cases r with
    | code =>
      rw [segmentsFrom, flatMap_consRun _ rfl]
      simp [Segment.symbols]
    | literal q => simp [segmentsFrom, Segment.symbols]
  | cons c cs ih =>
    cases r with
    | code =>
      cases hc : (role c).isQuote with
      | true =>
        obtain ⟨q, hq⟩ := Role.isQuote_iff.1 hc
        have hseam : Seam held.reverse (c :: cs) := .inr fun d hd => by
          obtain rfl := Option.some.inj hd
          exact hc
        rw [segmentsFrom_code_quote hq, flatMap_consRun _ rfl, ← ih, replaceAll_append hp hseam]
        rfl
      | false =>
        rw [segmentsFrom_code_plain hc, ← ih, List.reverse_cons, List.append_assoc,
          List.singleton_append]
    | literal q =>
      by_cases hc : role c = .quote q
      · have hseam : Seam (c :: held).reverse cs := .inl ⟨c, by simp, by rw [hc]; rfl⟩
        rw [segmentsFrom_literal_close hc, List.flatMap_cons, ← ih, List.reverse_nil,
          List.nil_append, Segment.symbols, ← replaceAll_append hp hseam, List.reverse_cons,
          List.append_assoc, List.singleton_append]
      · rw [segmentsFrom_literal_inner hc, ← ih, List.reverse_cons, List.append_assoc,
          List.singleton_append]

/-- **A pattern that stops at quotes is replaced in code only, if no literal holds it.** -/
theorem replaceAll_eq_mapCode {p : Pattern} (hp : p.StopsAtQuotes) {s : List Char}
    (h : ∀ text ∈ literals s, replaceAll p text = text) :
    replaceAll p s = mapCode (replaceAll p) s := by
  have hfront : (if startsInCode s then [] else replaceAll p []) = [] := ite_self _
  have hs := replaceAll_eq_flatMap hp .code [] s
  rw [List.reverse_nil, List.nil_append] at hs
  rw [hs, mapCode_eq, hfront, List.nil_append]
  refine List.flatMap_congr fun segment hsegment => ?_
  cases segment with
  | code run => rfl
  | literal text => exact h text (List.mem_filterMap.2 ⟨_, hsegment, rfl⟩)

/-! ### Whole words -/

/-- The word, given in lower case, stands in the text between two borders of words. -/
def HoldsWord (word s : List Char) : Prop :=
  ∃ front read back, s = front ++ (read ++ back) ∧ read.map Text.keyChar = word ∧
    Text.atBoundary front.getLast? read.head? = true ∧
    Text.atBoundary read.getLast? back.head? = true

theorem wordPattern_eq_some_iff {word replacement t s : List Char} {before : Option Char}
    {n : Nat} :
    wordPattern word replacement before s = some (n, t) ↔
      ∃ read back, (read.map Text.keyChar = word ∧ s = read ++ back) ∧
        Text.atBoundary read.getLast? back.head? = true ∧
        Text.atBoundary before read.head? = true ∧ n = read.length ∧ t = replacement := by
  constructor
  · intro h
    unfold wordPattern at h
    split at h
    · rename_i read back hs
      split at h
      · rename_i hb
        cases h
        obtain ⟨hread, hback⟩ := Text.splitWholeKey?_eq_some_iff.1 hs
        exact ⟨read, back, hread, hback, hb, rfl, rfl⟩
      · cases h
    · cases h
  · rintro ⟨read, back, hread, hback, hb, rfl, rfl⟩
    have hs := Text.splitWholeKey?_eq_some_iff.2 ⟨hread, hback⟩
    simp only [wordPattern, hs, hb, if_true]

theorem holdsWord_iff {word s : List Char} (replacement : List Char) :
    HoldsWord word s ↔ ∃ front rest, s = front ++ rest ∧
      (wordPattern word replacement front.getLast? rest).isSome = true := by
  simp only [Option.isSome_iff_exists, Prod.exists, wordPattern_eq_some_iff]
  constructor
  · rintro ⟨front, read, back, hs, hread, hb, hback⟩
    exact ⟨front, _, hs, _, _, read, back, ⟨hread, rfl⟩, hback, hb, rfl, rfl⟩
  · rintro ⟨front, _, hs, _, _, read, back, ⟨hread, rfl⟩, hback, hb, -, -⟩
    exact ⟨front, read, back, hs, hread, hb, hback⟩

instance (word s : List Char) : Decidable (HoldsWord word s) :=
  decidable_of_iff _ ((holdsWord_iff []).trans Text.exists_append_iff).symm

theorem replaceAll_wordPattern_eq_self {word replacement s : List Char} (h : ¬ HoldsWord word s) :
    replaceAll (wordPattern word replacement) s = s := by
  refine replaceAll_eq_self fun start rest _ hs => ?_
  by_contra hocc
  exact h ((holdsWord_iff replacement).2 ⟨start, rest, hs, Option.isSome_iff_ne_none.2 hocc⟩)

theorem keyChar_of_isQuote {c : Char} (h : (role c).isQuote = true) : Text.keyChar c = c := by
  obtain rfl | rfl := role_isQuote_iff.1 h <;> decide

theorem isWordChar_of_isQuote {c : Char} (h : (role c).isQuote = true) :
    Text.isWordChar c = false := by
  obtain rfl | rfl := role_isQuote_iff.1 h <;> decide

theorem quoteFree_of_map_keyChar {word read : List Char} (hword : QuoteFree word)
    (h : read.map Text.keyChar = word) : QuoteFree read := by
  intro c hc
  by_contra hq
  rw [Bool.not_eq_false] at hq
  have hmem : c ∈ word := by
    rw [← h, ← keyChar_of_isQuote hq]
    exact List.mem_map_of_mem hc
  rw [hword c hmem] at hq
  cases hq

/-- A text without quotes that starts before a seam ends before it. -/
theorem exists_eq_append_of_seam {x y read back : List Char} (hread : QuoteFree read)
    (h : Seam x y) (heq : x ++ y = read ++ back) :
    ∃ back', x = read ++ back' ∧ back = back' ++ y := by
  obtain ⟨extra, rfl, rfl⟩ | ⟨back', hx, hback⟩ := List.append_eq_append_iff.1 heq
  -- a text that reaches beyond the seam would hold its quote
  · obtain ⟨c, hc, hq⟩ | h := h
    · rw [hread c (List.mem_append_left _ (List.mem_of_getLast? hc))] at hq
      cases hq
    · cases extra with
      | nil => exact ⟨[], by simp, by simp⟩
      | cons c extra =>
        have hq := h c rfl
        rw [hread c (by simp)] at hq
        cases hq
  · exact ⟨back', hx, hback⟩

/-- A seam behind a text without quotes is no word character, like the end of a text. -/
theorem atBoundary_head?_append {read back y : List Char} (hread : QuoteFree read)
    (h : Seam (read ++ back) y) (last : Option Char) :
    Text.atBoundary last (back ++ y).head? = Text.atBoundary last back.head? := by
  cases back with
  | cons c back => rfl
  | nil =>
    rw [List.append_nil] at h
    obtain ⟨c, hc, hq⟩ | h := h
    · rw [hread c (List.mem_of_getLast? hc)] at hq
      cases hq
    · cases y with
      | nil => rfl
      | cons c y => simp [Text.atBoundary, isWordChar_of_isQuote (h c rfl)]

/-- **A whole word stops at quotes.** -/
theorem wordPattern_stopsAtQuotes {word replacement : List Char} (hword : QuoteFree word)
    (hne : word ≠ []) : Pattern.StopsAtQuotes (wordPattern word replacement) where
  length_le before s n t h := by
    obtain ⟨read, back, ⟨-, rfl⟩, -, -, rfl, -⟩ := wordPattern_eq_some_iff.1 h
    simp
  at_seam before x y h := by
    refine Option.ext fun ⟨n, t⟩ => ?_
    rw [wordPattern_eq_some_iff, wordPattern_eq_some_iff]
    constructor
    · rintro ⟨read, back, ⟨hread, heq⟩, hback, hrest⟩
      have hfree := quoteFree_of_map_keyChar hword hread
      obtain ⟨back, rfl, rfl⟩ := exists_eq_append_of_seam hfree h heq
      rw [atBoundary_head?_append hfree h] at hback
      exact ⟨read, back, ⟨hread, rfl⟩, hback, hrest⟩
    · rintro ⟨read, back, ⟨hread, rfl⟩, hback, hrest⟩
      rw [← atBoundary_head?_append (quoteFree_of_map_keyChar hword hread) h] at hback
      exact ⟨read, back ++ y, ⟨hread, by rw [List.append_assoc]⟩, hback, hrest⟩
  after_quote c s hc := by
    refine Option.ext fun ⟨n, t⟩ => ?_
    rw [wordPattern_eq_some_iff, wordPattern_eq_some_iff]
    simp [Text.atBoundary, isWordChar_of_isQuote hc]
  at_quote before c s hc := by
    by_contra hocc
    obtain ⟨⟨n, t⟩, hocc⟩ := Option.ne_none_iff_exists'.1 hocc
    obtain ⟨read, back, ⟨hread, heq⟩, -⟩ := wordPattern_eq_some_iff.1 hocc
    cases read with
    | nil => exact hne hread.symm
    | cons d read =>
      cases heq
      rw [quoteFree_of_map_keyChar hword hread c List.mem_cons_self] at hc
      cases hc

end Pseudocode
