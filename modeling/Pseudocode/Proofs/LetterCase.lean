import Mathlib.Data.List.Forall2
import Pseudocode.Proofs.Text
import Pseudocode.Text.CaseFold

/-!
# Letter case

There are three readings of letter case.  Lines are recognised in lower case, keywords are read
letter by letter up to the letters that stand for them, and categories are compared by their case
folding.  On ASCII letters the three agree, except that the dotted capital I has an ASCII letter for
its lower case and for nothing else.

* `mapRanges_eq_or` : what a table of ranges does to a code point.
* `ascii_of_lowerChar` : **the characters whose lower case is an ASCII character.**
* `keyChar_of_lowerChar`, `keyChar_lowerChar` : lower case and the letters of keywords.
* `SameFold`, `sameFold_of_keyChar`, `map_keyChar_of_sameFold` : texts that are equal up to case.
* `exists_of_hasKeyword` : **a keyword that is recognised in lower case can be read.**
-/

namespace Pseudocode

namespace Text

variable {c k : Char} {s word read rest : List Char}

/-! ### Tables -/

/-- A code point stays as it is, or it is shifted with the range in which it lies. -/
theorem mapRanges_eq_or (table : List (Nat × Nat × Nat × Nat)) (n : Nat) :
    mapRanges table n = n ∨ ∃ entry ∈ table, entry.1 ≤ n ∧ n ≤ entry.2.1 ∧
      mapRanges table n = entry.2.2.2 + (n - entry.1) := by
  induction table with
  | nil => exact .inl rfl
  | cons entry table ih =>
    obtain ⟨lo, hi, step, image⟩ := entry
    rw [mapRanges]
    split
    · exact .inl rfl
    · split
      · split
        · exact .inr ⟨_, List.mem_cons_self, by omega, by omega, rfl⟩
        · exact .inl rfl
      · obtain h | ⟨entry, hmem, h⟩ := ih
        · exact .inl h
        · exact .inr ⟨entry, List.mem_cons_of_mem _ hmem, h⟩

theorem toNat_ofNat {n : Nat} (h : n.isValidChar) : (Char.ofNat n).toNat = n := by
  have hchar : Char.ofNat n = Char.ofNatAux n h := dif_pos h
  rw [hchar]
  rfl

/-- The range is one of the two that lower case takes to ASCII letters. -/
def isAsciiEntry (entry : Nat × Nat × Nat × Nat) : Bool :=
  entry == (0x130, 0x130, 1, 105) || entry == (0x212a, 0x212a, 1, 107)

/-- The other ranges are taken to characters beyond ASCII, and to none that stands for an ASCII
letter. -/
def isForeignEntry (entry : Nat × Nat × Nat × Nat) : Bool :=
  let last := entry.2.2.2 + (entry.2.1 - entry.1)
  128 ≤ entry.2.2.2 && (last < 0xd800 || (0xe000 ≤ entry.2.2.2 && last < 0x110000)) &&
    (last < 0x17f || 0x17f < entry.2.2.2) && (last < 0x212a || 0x212a < entry.2.2.2)

theorem toNat_of_isForeignEntry {entry : Nat × Nat × Nat × Nat} {n : Nat}
    (h : isForeignEntry entry = true) (hlo : entry.1 ≤ n) (hhi : n ≤ entry.2.1) :
    (Char.ofNat (entry.2.2.2 + (n - entry.1))).toNat = entry.2.2.2 + (n - entry.1) := by
  simp only [isForeignEntry, Bool.and_eq_true, Bool.or_eq_true, decide_eq_true_eq] at h
  refine toNat_ofNat ?_
  simp only [Nat.isValidChar]
  omega

theorem lowerRanges_entries :
    lowerRanges.all (fun entry => isAsciiEntry entry || isForeignEntry entry) = true := by
  decide +kernel

/-- **What lower case does beyond ASCII.** -/
theorem lowerChar_cases (h : 128 ≤ c.toNat) :
    lowerChar c = c ∨ c = '\u0130' ∨ c = '\u212a' ∨
      (128 ≤ (lowerChar c).toNat ∧ lowerChar c ≠ '\u017f' ∧ lowerChar c ≠ '\u212a') := by
  have hlower : lowerChar c = Char.ofNat (mapRanges lowerRanges c.toNat) :=
    if_neg (Nat.not_lt.2 h)
  obtain hsame | ⟨⟨lo, hi, step, image⟩, hmem, hlo, hhi, himage⟩ :=
    mapRanges_eq_or lowerRanges c.toNat
  · rw [hsame, Char.ofNat_toNat] at hlower
    exact .inl hlower
  · have hentry := List.all_eq_true.1 lowerRanges_entries _ hmem
    rw [himage] at hlower
    simp only at hlo hhi hlower
    obtain hascii | hforeign := Bool.or_eq_true_iff.1 hentry
    · simp only [isAsciiEntry, Bool.or_eq_true, beq_iff_eq, Prod.mk.injEq] at hascii
      obtain ⟨rfl, rfl, -⟩ | ⟨rfl, rfl, -⟩ := hascii
      · exact .inr (.inl (Char.toNat_inj.1 (Nat.le_antisymm hhi hlo)))
      · exact .inr (.inr (.inl (Char.toNat_inj.1 (Nat.le_antisymm hhi hlo))))
    · refine .inr (.inr (.inr ?_))
      have hcode : (lowerChar c).toNat = image + (c.toNat - lo) := by
        rw [hlower, toNat_of_isForeignEntry hforeign hlo hhi]
      simp only [isForeignEntry, Bool.and_eq_true, Bool.or_eq_true, decide_eq_true_eq] at hforeign
      refine ⟨by omega, ?_, ?_⟩
      · intro heq
        have : (lowerChar c).toNat = 0x17f := by rw [heq]; rfl
        omega
      · intro heq
        have : (lowerChar c).toNat = 0x212a := by rw [heq]; rfl
        omega

/-! ### Characters -/

/-- A property of ASCII characters can be checked one by one. -/
theorem ascii_cases (P : Char → Prop) [DecidablePred P]
    (h : (List.range 128).all (fun n => decide (P (Char.ofNat n))) = true) (hc : c.toNat < 128) :
    P c := by
  have hp := List.all_eq_true.1 h c.toNat (List.mem_range.2 hc)
  rwa [decide_eq_true_eq, Char.ofNat_toNat] at hp

/-- The lower case of an ASCII character stands for itself, and differs from the character neither
as a blank nor up to case. -/
theorem ascii_toLower (h : c.toNat < 128) :
    keyChar c.toLower = c.toLower ∧ isBlank c.toLower = isBlank c ∧
      foldChar c.toLower = foldChar c :=
  ascii_cases (fun c => keyChar c.toLower = c.toLower ∧ isBlank c.toLower = isBlank c ∧
    foldChar c.toLower = foldChar c) (by decide +kernel) h

theorem lowerChar_of_ascii (h : c.toNat < 128) : lowerChar c = c.toLower := if_pos h

/-- **The characters whose lower case is an ASCII character.** -/
theorem ascii_of_lowerChar (h : (lowerChar c).toNat < 128) :
    c.toNat < 128 ∨ c = '\u0130' ∨ c = '\u212a' := by
  by_cases hc : c.toNat < 128
  · exact .inl hc
  · obtain hsame | hdotted | hkelvin | ⟨hforeign, -⟩ := lowerChar_cases (Nat.not_lt.1 hc)
    · rw [hsame] at h
      exact .inl h
    · exact .inr (.inl hdotted)
    · exact .inr (.inr hkelvin)
    · omega

theorem ascii_of_keyChar (h : (keyChar c).toNat < 128) :
    c.toNat < 128 ∨ c = '\u017f' ∨ c = '\u212a' := by
  unfold keyChar at h
  split at h
  · exact .inr (.inl ‹_›)
  · split at h
    · exact .inr (.inr ‹_›)
    · split at h
      · exact absurd h (by decide)
      · by_cases hupper : 'A'.val ≤ c.val ∧ c.val ≤ 'Z'.val
        · have hle : c.toNat ≤ 90 := hupper.2
          exact .inl (by omega)
        · have hsame : c.toLower = c := dif_neg hupper
          rw [hsame] at h
          exact .inl h

/-- A character whose lower case is an ASCII character stands for it, unless it is the dotted
capital I. -/
theorem keyChar_of_lowerChar (hdotted : c ≠ '\u0130') (hk : k.toNat < 128) (h : lowerChar c = k) :
    keyChar c = k := by
  obtain hc | hc | rfl := ascii_of_lowerChar (h ▸ hk)
  · rw [keyChar_of_ascii hc, ← lowerChar_of_ascii hc, h]
  · exact absurd hc hdotted
  · rw [← h]
    decide

theorem keyChar_lowerChar (hdotted : c ≠ '\u0130') (h : (keyChar (lowerChar c)).toNat < 128) :
    keyChar c = keyChar (lowerChar c) := by
  by_cases hc : c.toNat < 128
  · rw [lowerChar_of_ascii hc, keyChar_of_ascii hc, (ascii_toLower hc).1]
  · obtain hsame | hdot | rfl | ⟨hforeign, hlong, hkelvin⟩ := lowerChar_cases (Nat.not_lt.1 hc)
    · rw [hsame]
    · exact absurd hdot hdotted
    · decide
    · obtain hascii | heq | heq := ascii_of_keyChar h
      · omega
      · exact absurd heq hlong
      · exact absurd heq hkelvin

theorem isWordChar_lowerChar (h : isWordChar c = true) : isWordChar (lowerChar c) = true := by
  rw [lowerChar_of_ascii (ascii_of_isWordChar h), isWordChar_toLower, h]

theorem isWordChar_of_lowerChar (hdotted : c ≠ '\u0130') (hk : isWordChar k = true) (hne : k ≠ 'k')
    (h : lowerChar c = k) : isWordChar c = true := by
  obtain hc | hc | rfl := ascii_of_lowerChar (h ▸ ascii_of_isWordChar hk)
  · rw [← isWordChar_toLower, ← lowerChar_of_ascii hc, h, hk]
  · exact absurd hc hdotted
  · have hkelvin : lowerChar '\u212a' = 'k' := by decide
    exact absurd (h.symm.trans hkelvin) hne

theorem isBlank_eq_false (h : 128 ≤ c.toNat) : isBlank c = false := by
  refine Bool.eq_false_iff.2 fun hblank => ?_
  simp only [isBlank, Bool.or_eq_true, beq_iff_eq] at hblank
  obtain (((rfl | rfl) | rfl) | rfl) | rfl := hblank <;> exact absurd h (by decide)

@[simp] theorem isBlank_lowerChar (c : Char) : isBlank (lowerChar c) = isBlank c := by
  by_cases hc : c.toNat < 128
  · rw [lowerChar_of_ascii hc, (ascii_toLower hc).2.1]
  · have hge := Nat.not_lt.1 hc
    obtain hsame | rfl | rfl | ⟨hforeign, -⟩ := lowerChar_cases hge
    · rw [hsame]
    · decide
    · decide
    · rw [isBlank_eq_false hge, isBlank_eq_false hforeign]

/-! ### Texts that are equal up to case -/

/-- The characters of the two texts have the same simple case folding one by one. -/
def SameFold (s t : List Char) : Prop := List.Forall₂ (fun a b => foldChar a = foldChar b) s t

theorem equalFold_iff {s t : List Char} : equalFold s t = true ↔ SameFold s t := by
  rw [equalFold, beq_iff_eq, SameFold, ← List.forall₂_eq_eq_eq, List.forall₂_map_left_iff,
    List.forall₂_map_right_iff]

theorem foldChar_keyChar (h : (keyChar c).toNat < 128) : foldChar c = foldChar (keyChar c) := by
  obtain hc | rfl | rfl := ascii_of_keyChar h
  · rw [keyChar_of_ascii hc, (ascii_toLower hc).2.2]
  · decide
  · decide

/-- The range is one of the two that fold to ASCII letters. -/
def isAsciiFold (entry : Nat × Nat × Nat × Nat) : Bool :=
  entry == (0x17f, 0x17f, 1, 115) || entry == (0x212a, 0x212a, 1, 107)

theorem foldRanges_entries :
    foldRanges.all (fun entry => isAsciiFold entry || isForeignEntry entry) = true := by
  decide +kernel

/-- **The characters that fold to an ASCII character.** -/
theorem ascii_of_foldChar (h : (foldChar c).toNat < 128) :
    c.toNat < 128 ∨ c = '\u017f' ∨ c = '\u212a' := by
  by_cases hc : c.toNat < 128
  · exact .inl hc
  · have hfold : foldChar c = Char.ofNat (mapRanges foldRanges c.toNat) := if_neg hc
    obtain hsame | ⟨entry, hmem, hlo, hhi, himage⟩ := mapRanges_eq_or foldRanges c.toNat
    · rw [hfold, hsame, Char.ofNat_toNat] at h
      exact .inl h
    · have hentry := List.all_eq_true.1 foldRanges_entries _ hmem
      obtain hascii | hforeign := Bool.or_eq_true_iff.1 hentry
      · simp only [isAsciiFold, Bool.or_eq_true, beq_iff_eq] at hascii
        obtain rfl | rfl := hascii
        · exact .inr (.inl (Char.toNat_inj.1 (Nat.le_antisymm hhi hlo)))
        · exact .inr (.inr (Char.toNat_inj.1 (Nat.le_antisymm hhi hlo)))
      · rw [hfold, himage, toNat_of_isForeignEntry hforeign hlo hhi] at h
        simp only [isForeignEntry, Bool.and_eq_true, decide_eq_true_eq] at hforeign
        omega

theorem keyChar_of_foldChar (hk : k.toNat < 128) (h : foldChar c = k) : keyChar c = k := by
  obtain hc | rfl | rfl := ascii_of_foldChar (h ▸ hk)
  · rw [keyChar_of_ascii hc, ← h]
    exact (if_pos hc).symm
  · rw [← h]
    decide
  · rw [← h]
    decide

/-- The word consists of ASCII characters. -/
def isAsciiWord (word : List Char) : Bool := word.all fun k => decide (k.toNat < 128)

theorem ascii_of_isAsciiWord (h : isAsciiWord word = true) : ∀ k ∈ word, k.toNat < 128 :=
  fun k hk => of_decide_eq_true (List.all_eq_true.1 h k hk)

/-- What is read for a word of ASCII characters is that word up to case. -/
theorem sameFold_of_keyChar (hword : isAsciiWord word = true) (h : read.map keyChar = word) :
    SameFold read word := by
  subst h
  refine List.forall₂_map_right_iff.2 (List.forall₂_same.2 fun c hc => ?_)
  exact foldChar_keyChar (ascii_of_isAsciiWord hword _ (List.mem_map_of_mem hc))

/-- The word is written in the letters of keywords. -/
def isPlainWord (word : List Char) : Bool := word.all fun k => isWordChar k && keyChar k == k

theorem isPlainWord_cons :
    isPlainWord (k :: word) = true ↔
      (isWordChar k = true ∧ keyChar k = k) ∧ isPlainWord word = true := by
  simp [isPlainWord]

theorem map_keyChar_of_isPlainWord (h : isPlainWord word = true) : word.map keyChar = word := by
  induction word with
  | nil => rfl
  | cons k word ih =>
    obtain ⟨⟨-, hk⟩, hword⟩ := isPlainWord_cons.1 h
    rw [List.map_cons, hk, ih hword]

theorem isLooseWordChar_of_isPlainWord (hword : isPlainWord word = true)
    (h : read.map keyChar = word) : ∀ c ∈ read, isLooseWordChar c = true := by
  subst h
  intro c hc
  have hplain := List.all_eq_true.1 hword _ (List.mem_map_of_mem hc)
  exact (Bool.and_eq_true_iff.1 hplain).1

/-- **What is a word up to case can be read for it,** if the word is written in the letters of
keywords. -/
theorem map_keyChar_of_sameFold (hword : isPlainWord word = true) (h : SameFold read word) :
    read.map keyChar = word := by
  induction h with
  | nil => rfl
  | @cons c k read word hfold _ ih =>
    obtain ⟨⟨hletter, hk⟩, hword⟩ := isPlainWord_cons.1 hword
    have hascii := ascii_of_isWordChar hletter
    have hlower : foldChar k = k.toLower := if_pos hascii
    have hself : foldChar k = k := by rw [hlower, ← keyChar_of_ascii hascii, hk]
    rw [List.map_cons, ih hword, keyChar_of_foldChar hascii (hfold.trans hself)]

/-! ### Keywords in lower case -/

theorem map_keyChar_of_lower (hdotted : '\u0130' ∉ read) (hword : isAsciiWord word = true)
    (h : lower read = word) : read.map keyChar = word := by
  subst h
  refine List.map_congr_left fun c hc => ?_
  exact keyChar_of_lowerChar (fun heq => hdotted (heq ▸ hc))
    (ascii_of_isAsciiWord hword _ (List.mem_map_of_mem hc)) rfl

theorem head?_lower_any (h : (lower rest).head?.any isWordChar = false) :
    rest.head?.any isWordChar = false := by
  cases rest with
  | nil => rfl
  | cons c cs =>
    refine Bool.eq_false_iff.2 fun hc => ?_
    rw [show (lower (c :: cs)).head?.any isWordChar = isWordChar (lowerChar c) from rfl,
      isWordChar_lowerChar hc] at h
    cases h

/-- **A keyword that is recognised in lower case can be read,** whatever follows it. -/
theorem exists_of_hasKeyword (hdotted : '\u0130' ∉ s) (hword : isAsciiWord word = true)
    (h : hasKeyword word (lower s) = true) :
    ∃ read rest, s = read ++ rest ∧ lower read = word ∧ read.map keyChar = word ∧
      rest.head?.any isWordChar = false := by
  simp only [hasKeyword, Bool.and_eq_true, List.isPrefixOf_iff_prefix, Bool.not_eq_true'] at h
  obtain ⟨⟨back, hback⟩, hnext⟩ := h
  obtain ⟨read, rest, rfl, hread, hrest⟩ := List.map_eq_append_iff.1 hback.symm
  refine ⟨read, rest, rfl, hread, ?_, head?_lower_any ?_⟩
  · exact map_keyChar_of_lower (fun hmem => hdotted (List.mem_append_left _ hmem)) hword hread
  · have hdrop : (lower (read ++ rest)).drop word.length = lower rest := by
      rw [← hread, lower, List.map_append]
      exact List.drop_left
    rw [hdrop] at hnext
    cases hhead : (lower rest).head? with
    | none => rfl
    | some c =>
      rw [hhead] at hnext
      refine Bool.eq_false_iff.2 fun hc => ?_
      rw [Option.any_some, isNameChar_of_isWordChar hc] at hnext
      cases hnext

end Text

end Pseudocode
