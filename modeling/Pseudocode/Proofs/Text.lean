import Mathlib.Data.List.TakeWhile
import Pseudocode.Text.LowerCase
import Pseudocode.Text.Word

/-!
# Parts of texts

Cutting, trimming and stripping keep the characters of a text: what they give is a part of what
they are given.

* `exists_trim_eq`, `trim_append` : trimming removes spaces at the ends.
* `splitOn_join` : splitting finds the pieces that have been joined.
* `splitKey?_eq_some_iff` : **what it means to read a keyword.**
* `stripKey_subset` and the like : which functions give parts of their argument.
* `isLooseWordChar_iff`, `isNameChar_of_isSpace` and the like : how the classes of characters lie.
-/

namespace Pseudocode

namespace Text

/-- The last character before a place, where `before` is the one before the text. -/
theorem getLast?_cons_or {α : Type} (c : α) (cs : List α) (before : Option α) :
    (c :: cs).getLast?.or before = cs.getLast?.or (some c) := by
  cases cs <;> simp [List.getLast?_cons]

theorem run_append_inj {p : Char → Bool} {x y s t : List Char} (hx : ∀ c ∈ x, p c = true)
    (hy : ∀ c ∈ y, p c = true) (hs : s.head?.any p = false) (ht : t.head?.any p = false)
    (h : x ++ s = y ++ t) : x = y ∧ s = t := by
  have hlonger : ∀ {x y z : List Char}, (∀ c ∈ x ++ y, p c = true) →
      (y ++ z).head?.any p = false → y = [] := by
    intro x y z hxy hhead
    cases y with
    | nil => rfl
    | cons d y => simp [hxy d (by simp)] at hhead
  obtain ⟨extra, rfl, rfl⟩ | ⟨extra, rfl, rfl⟩ := List.append_eq_append_iff.1 h
  · simp [hlonger hy hs]
  · simp [hlonger hx ht]

/-- A text can be cut at finitely many places only. -/
theorem exists_append_iff {P : List Char → List Char → Prop} {s : List Char} :
    (∃ front rest, s = front ++ rest ∧ P front rest) ↔
      ∃ i ∈ List.range (s.length + 1), P (s.take i) (s.drop i) := by
  constructor
  · rintro ⟨front, rest, rfl, h⟩
    have hlength : front.length < (front ++ rest).length + 1 := by
      rw [List.length_append]
      omega
    exact ⟨front.length, List.mem_range.2 hlength, by simpa using h⟩
  · rintro ⟨i, -, h⟩
    exact ⟨s.take i, s.drop i, (List.take_append_drop i s).symm, h⟩

theorem getD_subset {part? : Option (List Char)} {s : List Char} (h : ∀ t ∈ part?, t ⊆ s) :
    part?.getD s ⊆ s := by
  cases part? with
  | none => exact List.Subset.refl s
  | some t => exact h t rfl

/-! ### Spaces -/

/-- A text is its trimmed text with spaces at both ends. -/
theorem exists_trim_eq (s : List Char) :
    ∃ front back, (∀ c ∈ front, isSpace c = true) ∧ (∀ c ∈ back, isSpace c = true) ∧
      s = front ++ (trim s ++ back) := by
  refine ⟨s.takeWhile isSpace, ((trimStart s).reverse.takeWhile isSpace).reverse, ?_, ?_, ?_⟩
  · exact List.all_eq_true.1 List.all_takeWhile
  · intro c hc
    exact List.all_eq_true.1 List.all_takeWhile c (List.mem_reverse.1 hc)
  · have hend : trim s ++ ((trimStart s).reverse.takeWhile isSpace).reverse = trimStart s := by
      rw [trim, trimEnd, ← List.reverse_append, List.takeWhile_append_dropWhile,
        List.reverse_reverse]
    rw [hend, trimStart, List.takeWhile_append_dropWhile]

theorem trim_subset (s : List Char) : trim s ⊆ s := by
  obtain ⟨front, back, -, -, hs⟩ := exists_trim_eq s
  intro c hc
  rw [hs]
  simp [hc]

theorem trim_eq_nil_iff {s : List Char} : trim s = [] ↔ ∀ c ∈ s, isSpace c = true := by
  constructor
  · intro h
    obtain ⟨front, back, hfront, hback, hs⟩ := exists_trim_eq s
    rw [h, List.nil_append] at hs
    rw [hs]
    exact List.forall_mem_append.2 ⟨hfront, hback⟩
  · intro h
    rw [trim, trimStart, List.dropWhile_eq_nil_iff.2 h]
    rfl

/-- A text that starts with no space is trimmed at its end only. -/
theorem head?_trim_cons {c : Char} (hc : isSpace c = false) (s : List Char) :
    (trim (c :: s)).head? = some c := by
  obtain ⟨front, back, hfront, hback, hs⟩ := exists_trim_eq (c :: s)
  have hne : trim (c :: s) ≠ [] := fun h =>
    Bool.false_ne_true (hc.symm.trans (trim_eq_nil_iff.1 h c List.mem_cons_self))
  cases front with
  | nil =>
    obtain ⟨d, t, ht⟩ := List.exists_cons_of_ne_nil hne
    rw [ht] at hs ⊢
    exact congrArg some (List.cons.inj hs).1.symm
  | cons d front =>
    obtain ⟨rfl, -⟩ := List.cons.inj hs
    exact absurd (hfront c List.mem_cons_self) (by simp [hc])

theorem trimStart_append {s : List Char} (h : trimStart s ≠ []) (t : List Char) :
    trimStart (s ++ t) = trimStart s ++ t := by
  unfold trimStart at h ⊢
  rw [List.dropWhile_append, if_neg fun hnil => h (List.isEmpty_iff.1 hnil)]

theorem trimEnd_append_cons {c : Char} (h : isSpace c = false) (s t : List Char) :
    trimEnd (s ++ c :: t) = s ++ c :: trimEnd t := by
  have hback : (s ++ c :: t).reverse = t.reverse ++ c :: s.reverse := by simp
  have hstop : (c :: s.reverse).dropWhile isSpace = c :: s.reverse :=
    List.dropWhile_cons_of_neg (by simp [h])
  rw [trimEnd, hback, List.dropWhile_append, hstop]
  split
  · rename_i hnil
    simp [trimEnd, List.isEmpty_iff.1 hnil]
  · simp [trimEnd]

theorem trimEnd_concat {c : Char} (h : isSpace c = true) (s : List Char) :
    trimEnd (s ++ [c]) = trimEnd s := by
  rw [trimEnd, List.reverse_append, List.reverse_singleton, List.singleton_append,
    List.dropWhile_cons_of_pos h, trimEnd]

theorem exists_run (p : Char → Bool) (s : List Char) :
    ∃ run rest, s = run ++ rest ∧ (∀ c ∈ run, p c = true) ∧ rest.head?.any p = false := by
  refine ⟨s.takeWhile p, s.dropWhile p, List.takeWhile_append_dropWhile.symm,
    List.all_eq_true.1 List.all_takeWhile, ?_⟩
  have hnot := List.head?_dropWhile_not p s
  cases hs : (s.dropWhile p).head? with
  | none => rfl
  | some c => simpa [hs] using hnot

theorem dropWhile_run_append {p : Char → Bool} {run rest : List Char}
    (hrun : ∀ c ∈ run, p c = true) (hrest : rest.head?.any p = false) :
    (run ++ rest).dropWhile p = rest := by
  rw [List.dropWhile_append_of_pos hrun]
  cases rest with
  | nil => rfl
  | cons c cs => exact List.dropWhile_cons_of_neg (by simpa using hrest)

theorem takeWhile_run_append {p : Char → Bool} {run rest : List Char}
    (hrun : ∀ c ∈ run, p c = true) (hrest : rest.head?.any p = false) :
    (run ++ rest).takeWhile p = run := by
  have hall := List.takeWhile_append_dropWhile (p := p) (l := run ++ rest)
  rw [dropWhile_run_append hrun hrest] at hall
  exact List.append_cancel_right hall

theorem trim_append {front s back : List Char} (hfront : ∀ c ∈ front, isSpace c = true)
    (hback : ∀ c ∈ back, isSpace c = true) (hstart : s.head?.any isSpace = false)
    (hend : s.getLast?.any isSpace = false) : trim (front ++ (s ++ back)) = s := by
  have hreverse : ∀ c ∈ back.reverse, isSpace c = true := fun c hc =>
    hback c (List.mem_reverse.1 hc)
  cases s with
  | nil =>
    have hall : ∀ c ∈ front ++ back, isSpace c = true := fun c hc =>
      (List.mem_append.1 hc).elim (hfront c) (hback c)
    rw [List.nil_append, trim, trimStart, ← List.append_nil (front ++ back),
      dropWhile_run_append hall rfl]
    rfl
  | cons c cs =>
    rw [trim, trimStart, dropWhile_run_append hfront (by simpa using hstart), trimEnd,
      List.reverse_append, dropWhile_run_append hreverse (by rwa [List.head?_reverse]),
      List.reverse_reverse]

theorem trim_of_noSpace {s : List Char} (h : ∀ c ∈ s, isSpace c = false) : trim s = s := by
  have hany : ∀ x : Option Char, (∀ c ∈ x, c ∈ s) → x.any isSpace = false := by
    intro x hx
    cases x with
    | none => rfl
    | some c => exact h c (hx c rfl)
  have htrim : trim ([] ++ (s ++ [])) = s :=
    trim_append (by simp) (by simp) (hany _ fun c hc => List.mem_of_head? hc)
      (hany _ fun c hc => List.mem_of_getLast? hc)
  simpa using htrim

theorem head?_trim (s : List Char) : (trim s).head?.any isSpace = false := by
  obtain ⟨front, rest, rfl, hfront, hrest⟩ := exists_run isSpace s
  rw [trim, trimStart, dropWhile_run_append hfront hrest]
  -- what is cut off at the end leaves the first character as it is
  cases rest with
  | nil => rfl
  | cons c cs =>
    have hc : isSpace c = false := by simpa using hrest
    rw [show c :: cs = [] ++ c :: cs from rfl, trimEnd_append_cons hc]
    exact hrest

theorem getLast?_trim (s : List Char) : (trim s).getLast?.any isSpace = false := by
  obtain ⟨back, rest, hs, hback, hrest⟩ := exists_run isSpace (trimStart s).reverse
  rw [trim, trimEnd, hs, dropWhile_run_append hback hrest, List.getLast?_reverse]
  exact hrest

theorem trim_trim (s : List Char) : trim (trim s) = trim s := by
  have h := trim_append (List.forall_mem_nil _) (List.forall_mem_nil _) (head?_trim s)
    (getLast?_trim s)
  rwa [List.nil_append, List.append_nil] at h

theorem skipBlanks_suffix (s : List Char) : skipBlanks s <:+ s := List.dropWhile_suffix _

theorem suffix_of_skipSomeBlanks? {s rest : List Char} (h : skipSomeBlanks? s = some rest) :
    rest <:+ s := by
  cases s with
  | nil => cases h
  | cons c cs =>
    simp only [skipSomeBlanks?] at h
    split at h
    · cases h
      exact (skipBlanks_suffix cs).trans (List.suffix_cons c cs)
    · cases h

theorem fieldsFrom_of_noSpace {word s : List Char} (h : ∀ c ∈ s, isSpace c = false)
    (hne : word ≠ [] ∨ s ≠ []) : fieldsFrom word s = [word.reverse ++ s] := by
  induction s generalizing word with
  | nil =>
    have hword : ¬ word.isEmpty = true := by simpa using hne
    rw [fieldsFrom, if_neg hword, List.append_nil]
  | cons c cs ih =>
    obtain ⟨hc, hcs⟩ := List.forall_mem_cons.1 h
    rw [fieldsFrom, hc, if_neg Bool.false_ne_true, ih hcs (.inl (List.cons_ne_nil c word)),
      List.reverse_cons, List.append_assoc, List.singleton_append]

theorem fieldsFrom_subset {word s field : List Char} (h : field ∈ fieldsFrom word s) :
    field ⊆ word ++ s := by
  induction s generalizing word with
  | nil =>
    simp only [fieldsFrom] at h
    split at h
    · cases h
    · obtain rfl := List.mem_singleton.1 h
      simp
  | cons c cs ih =>
    have hrest : field ∈ fieldsFrom [] cs → field ⊆ word ++ c :: cs := fun hf =>
      List.Subset.trans (ih hf) fun a ha => by simp_all
    simp only [fieldsFrom] at h
    split at h
    · split at h
      · exact hrest h
      · obtain rfl | h := List.mem_cons.1 h
        · intro a ha
          simp_all
        · exact hrest h
    · exact List.Subset.trans (ih h) fun a ha => by simpa [or_assoc, or_left_comm] using ha

theorem subset_of_mem_fields {s field : List Char} (h : field ∈ fields s) : field ⊆ s :=
  fieldsFrom_subset h

theorem subset_of_mem_splitOn {sep : Char} {s piece : List Char} (h : piece ∈ splitOn sep s) :
    piece ⊆ s := by
  induction s generalizing piece with
  | nil => simp_all [splitOn]
  | cons c cs ih =>
    simp only [splitOn] at h
    split at h
    · obtain rfl | h := List.mem_cons.1 h
      · exact List.nil_subset _
      · exact List.subset_cons_of_subset c (ih h)
    · split at h
      · obtain rfl := List.mem_singleton.1 h
        simp
      · rename_i first pieces hcs
        obtain rfl | h := List.mem_cons.1 h
        · exact List.cons_subset_cons c (ih (by simp [hcs]))
        · exact List.subset_cons_of_subset c (ih (by simp [hcs, h]))

theorem splitOn_ne_nil (sep : Char) (s : List Char) : splitOn sep s ≠ [] := by
  cases s with
  | nil => exact List.cons_ne_nil _ _
  | cons c cs =>
    rw [splitOn]
    split
    · exact List.cons_ne_nil _ _
    · split <;> exact List.cons_ne_nil _ _

theorem notMem_of_mem_splitOn {sep : Char} {s piece : List Char} (h : piece ∈ splitOn sep s) :
    sep ∉ piece := by
  induction s generalizing piece with
  | nil =>
    obtain rfl := List.mem_singleton.1 h
    exact List.not_mem_nil
  | cons c cs ih =>
    simp only [splitOn] at h
    split at h
    · obtain rfl | h := List.mem_cons.1 h
      · exact List.not_mem_nil
      · exact ih h
    · rename_i hc
      split at h
      · rename_i hnil
        exact absurd hnil (splitOn_ne_nil sep cs)
      · rename_i first pieces hcs
        obtain rfl | h := List.mem_cons.1 h
        · exact not_or.2 ⟨Ne.symm hc, ih (by simp [hcs])⟩ ∘ List.mem_cons.1
        · exact ih (by simp [hcs, h])

theorem mem_join {sep : List Char} {ss : List (List Char)} {c : Char} (h : c ∈ join sep ss) :
    c ∈ sep ∨ ∃ s ∈ ss, c ∈ s := by
  induction ss with
  | nil => cases h
  | cons s ss ih =>
    cases ss with
    | nil => exact .inr ⟨s, by simp, h⟩
    | cons s' ss =>
      simp only [join, List.mem_append] at h
      obtain (h | h) | h := h
      · exact .inr ⟨s, by simp, h⟩
      · exact .inl h
      · obtain h | ⟨t, ht, hc⟩ := ih h
        · exact .inl h
        · exact .inr ⟨t, List.mem_cons_of_mem s ht, hc⟩

theorem splitOn_of_notMem {sep : Char} {s : List Char} (h : sep ∉ s) : splitOn sep s = [s] := by
  induction s with
  | nil => rfl
  | cons c cs ih =>
    obtain ⟨hc, hcs⟩ := not_or.1 (mt List.mem_cons.2 h)
    simp only [splitOn, Ne.symm hc, if_false, ih hcs]

theorem splitOn_append_cons {sep : Char} {s : List Char} (h : sep ∉ s) (t : List Char) :
    splitOn sep (s ++ sep :: t) = s :: splitOn sep t := by
  induction s with
  | nil => simp only [List.nil_append, splitOn, if_true]
  | cons c cs ih =>
    obtain ⟨hc, hcs⟩ := not_or.1 (mt List.mem_cons.2 h)
    simp only [List.cons_append, splitOn, Ne.symm hc, if_false, ih hcs]

theorem splitOn_join {sep : Char} {raws : List (List Char)} (hne : raws ≠ [])
    (h : ∀ raw ∈ raws, sep ∉ raw) : splitOn sep (join [sep] raws) = raws := by
  induction raws with
  | nil => exact absurd rfl hne
  | cons raw raws ih =>
    obtain ⟨hraw, hraws⟩ := List.forall_mem_cons.1 h
    cases raws with
    | nil => exact splitOn_of_notMem hraw
    | cons next rest =>
      simp only [join, List.append_assoc, List.singleton_append]
      rw [splitOn_append_cons hraw, ih (List.cons_ne_nil _ _) hraws]

/-! ### Keywords -/

/-- **What it means to read a keyword:** the text starts with characters that stand for its letters
one by one, and the rest follows. -/
theorem splitKey?_eq_some_iff {key s read rest : List Char} :
    splitKey? key s = some (read, rest) ↔ read.map keyChar = key ∧ s = read ++ rest := by
  induction key generalizing s read with
  | nil =>
    simp only [splitKey?, Option.some.injEq, Prod.mk.injEq, List.map_eq_nil_iff]
    constructor
    · rintro ⟨rfl, rfl⟩
      exact ⟨rfl, rfl⟩
    · rintro ⟨rfl, rfl⟩
      exact ⟨rfl, rfl⟩
  | cons k key ih =>
    cases s with
    | nil => cases read <;> simp [splitKey?]
    | cons c cs =>
      cases read with
      | nil => simp [splitKey?]
      | cons c' read =>
        simp only [splitKey?, List.map_cons, List.cons.injEq, List.cons_append]
        split
        · rename_i hk
          simp only [Option.map_eq_some_iff, Prod.exists, Prod.mk.injEq, List.cons.injEq]
          constructor
          · rintro ⟨read', rest', h, ⟨rfl, rfl⟩, rfl⟩
            obtain ⟨hread, rfl⟩ := ih.1 h
            exact ⟨⟨hk, hread⟩, rfl, rfl⟩
          · rintro ⟨⟨-, hread⟩, rfl, rfl⟩
            exact ⟨read, rest, ih.2 ⟨hread, rfl⟩, ⟨rfl, rfl⟩, rfl⟩
        · rename_i hk
          simp only [reduceCtorEq, false_iff]
          rintro ⟨⟨hk', -⟩, rfl, -⟩
          exact hk hk'

theorem splitKey?_eq_none {key word other : List Char} (hword : word.map keyChar = key)
    (hkey : ¬ key <+: other) (hother : ¬ other <+: key) (t : List Char) :
    splitKey? other (word ++ t) = none := by
  refine Option.eq_none_iff_forall_ne_some.2 fun ⟨read, rest⟩ h => ?_
  obtain ⟨hread, hs⟩ := splitKey?_eq_some_iff.1 h
  obtain hle | hle := List.prefix_or_prefix_of_prefix (List.prefix_append word t)
    (hs ▸ List.prefix_append read rest)
  · exact hkey (hword ▸ hread ▸ hle.map keyChar)
  · exact hother (hword ▸ hread ▸ hle.map keyChar)

theorem splitWholeKey?_eq_some_iff {key s read rest : List Char} :
    splitWholeKey? key s = some (read, rest) ↔
      (read.map keyChar = key ∧ s = read ++ rest) ∧ atBoundary read.getLast? rest.head? = true := by
  rw [splitWholeKey?, Option.filter_eq_some_iff, splitKey?_eq_some_iff]

theorem suffix_of_splitKey? {key s read rest : List Char}
    (h : splitKey? key s = some (read, rest)) : rest <:+ s := by
  rw [(splitKey?_eq_some_iff.1 h).2]
  exact List.suffix_append read rest

theorem suffix_of_splitWholeKey? {key s read rest : List Char}
    (h : splitWholeKey? key s = some (read, rest)) : rest <:+ s := by
  rw [(splitWholeKey?_eq_some_iff.1 h).1.2]
  exact List.suffix_append read rest

theorem suffix_of_splitAnyKey? {keys : List (List Char)} {s read rest : List Char}
    (h : splitAnyKey? keys s = some (read, rest)) : rest <:+ s := by
  obtain ⟨key, -, hkey⟩ := List.exists_of_findSome?_eq_some h
  exact suffix_of_splitKey? hkey

/-- A keyword is read if none is the start of another one. -/
theorem splitAnyKey?_append {keys : List (List Char)}
    (hkeys : keys.Pairwise fun key other => ¬ key <+: other ∧ ¬ other <+: key)
    {key word : List Char}
    (hkey : key ∈ keys) (hword : word.map keyChar = key) (t : List Char) :
    splitAnyKey? keys (word ++ t) = some (word, t) := by
  induction keys with
  | nil => cases hkey
  | cons first keys ih =>
    obtain ⟨hfirst, hkeys⟩ := List.pairwise_cons.1 hkeys
    rw [splitAnyKey?, List.findSome?_cons]
    obtain rfl | hkey := List.mem_cons.1 hkey
    · rw [splitKey?_eq_some_iff.2 ⟨hword, rfl⟩]
    · obtain ⟨hother, hkeyfirst⟩ := hfirst key hkey
      rw [splitKey?_eq_none hword hkeyfirst hother]
      exact ih hkeys hkey

theorem stripKey_subset (key s : List Char) : stripKey key s ⊆ s := by
  unfold stripKey
  split
  · rename_i hs
    exact List.Subset.trans (trim_subset _) (suffix_of_splitKey? hs).subset
  · exact trim_subset s

theorem stripWholeKey_subset (key s : List Char) : stripWholeKey key s ⊆ s := by
  unfold stripWholeKey
  split
  · rename_i hs
    exact List.Subset.trans (trim_subset _) (suffix_of_splitWholeKey? hs).subset
  · exact trim_subset s

theorem dropLastKey?_eq_some_iff {key s before : List Char} :
    dropLastKey? key s = some before ↔ ∃ word, word.map keyChar = key ∧ s = before ++ word := by
  simp only [dropLastKey?, Option.map_eq_some_iff, Prod.exists, splitKey?_eq_some_iff]
  constructor
  · rintro ⟨read, rest, ⟨hread, hs⟩, rfl⟩
    refine ⟨read.reverse, ?_, ?_⟩
    · rw [List.map_reverse, hread, List.reverse_reverse]
    · rw [← List.reverse_append, ← hs, List.reverse_reverse]
  · rintro ⟨word, rfl, rfl⟩
    exact ⟨word.reverse, before.reverse, ⟨List.map_reverse, List.reverse_append⟩,
      List.reverse_reverse before⟩

theorem subset_of_dropLastKey? {key s before : List Char} (h : dropLastKey? key s = some before) :
    before ⊆ s := by
  obtain ⟨word, -, rfl⟩ := dropLastKey?_eq_some_iff.1 h
  exact List.subset_append_left before word

theorem stripLastKey_subset (key s : List Char) : stripLastKey key s ⊆ s := by
  unfold stripLastKey
  split
  · rename_i before hs
    split
    · exact List.Subset.trans (trim_subset _) (subset_of_dropLastKey? hs)
    · exact trim_subset s
  · exact trim_subset s

theorem subset_of_dropLastBlanks? {s before : List Char} (h : dropLastBlanks? s = some before) :
    before ⊆ s := by
  obtain ⟨rest, hs, rfl⟩ := Option.map_eq_some_iff.1 h
  intro c hc
  exact List.mem_reverse.1 ((suffix_of_skipSomeBlanks? hs).subset (List.mem_reverse.1 hc))

/-! ### Classes of characters -/

theorem isWordChar_toLower (c : Char) : isWordChar c.toLower = isWordChar c := by
  by_cases h : 'A'.val ≤ c.val ∧ c.val ≤ 'Z'.val
  · have hrange : 65 ≤ c.toNat ∧ c.toNat ≤ 90 := h
    have hupper : ∀ n ∈ List.range' 65 26,
        isWordChar (Char.ofNat n).toLower = isWordChar (Char.ofNat n) := by decide
    have hc := hupper c.toNat (by simp only [List.mem_range'_1]; omega)
    rwa [Char.ofNat_toNat] at hc
  · have hsame : c.toLower = c := dif_neg h
    rw [hsame]

/-- The characters that stand for a word character are the word characters, the long s and the
kelvin sign. -/
theorem isLooseWordChar_iff {c : Char} :
    isLooseWordChar c = true ↔ isWordChar c = true ∨ c = '\u017f' ∨ c = '\u212a' := by
  unfold isLooseWordChar keyChar
  split
  · rename_i h
    simp [h, isWordChar]
  · split
    · rename_i h
      simp [h, isWordChar]
    · split
      · rename_i h
        subst h
        decide
      · simp [isWordChar_toLower, *]

theorem isWordChar_of_keyChar {c : Char} (h : isWordChar (keyChar c) = true)
    (hs : keyChar c ≠ 's') (hk : keyChar c ≠ 'k') : isWordChar c = true := by
  obtain h | rfl | rfl := isLooseWordChar_iff.1 h
  · exact h
  · exact absurd rfl hs
  · exact absurd rfl hk

theorem isNameChar_of_isWordChar {c : Char} (h : isWordChar c = true) : isNameChar c = true := by
  simp only [isWordChar, Char.isAlphanum, Bool.or_eq_true] at h
  simp only [isNameChar, isLetter, isDigit, Bool.or_eq_true]
  obtain (h | h) | h := h
  · exact .inl (.inr (.inl h))
  · exact .inr (.inl h)
  · exact .inl (.inl h)

theorem keyChar_of_ascii {c : Char} (h : c.toNat < 128) : keyChar c = c.toLower := by
  have hne : ∀ d : Char, 128 ≤ d.toNat → c ≠ d := by
    rintro d hd rfl
    omega
  rw [keyChar, if_neg (hne _ (by decide)), if_neg (hne _ (by decide)), if_neg (hne _ (by decide))]

theorem ascii_of_isWordChar {c : Char} (h : isWordChar c = true) : c.toNat < 128 := by
  have hle : ∀ {n : UInt32}, c.val ≤ n → n.toNat < 128 → c.toNat < 128 := fun h hn =>
    Nat.lt_of_le_of_lt (UInt32.le_iff_toNat_le.1 h) hn
  simp only [isWordChar, Char.isAlphanum, Bool.or_eq_true, beq_iff_eq] at h
  obtain (h | h) | rfl := h
  · obtain h | h := Bool.or_eq_true_iff.1 h
    · have hrange : 'A'.val ≤ c.val ∧ c.val ≤ 'Z'.val := of_decide_eq_true h
      exact hle hrange.2 (by decide)
    · exact hle (of_decide_eq_true (Bool.and_eq_true_iff.1 h).2) (by decide)
  · exact hle (of_decide_eq_true (Bool.and_eq_true_iff.1 h).2) (by decide)
  · decide

theorem lowerChar_of_isWordChar {c : Char} (h : isWordChar c = true) :
    lowerChar c = keyChar c := by
  rw [lowerChar, if_pos (ascii_of_isWordChar h), keyChar_of_ascii (ascii_of_isWordChar h)]

theorem isNameChar_of_isLooseWordChar {c : Char} (h : isLooseWordChar c = true) :
    isNameChar c = true := by
  obtain h | rfl | rfl := isLooseWordChar_iff.1 h
  · exact isNameChar_of_isWordChar h
  · decide +kernel
  · decide +kernel

theorem isLooseWordChar_of_isNameChar {c : Char} (h : isNameChar c = false) :
    isLooseWordChar c = false := by
  refine Bool.eq_false_iff.2 fun hc => ?_
  rw [isNameChar_of_isLooseWordChar hc] at h
  cases h

theorem isIdentifierRest_of_isNameChar {c : Char} (h : isNameChar c = true) :
    isIdentifierRest c = true := by
  simp only [isNameChar, Bool.or_eq_true] at h
  simp only [isIdentifierRest, isNumber, Bool.or_eq_true]
  exact h.imp_right .inl

theorem isIdentifierRest_of_isSpace {c : Char} (h : isSpace c = true) :
    isIdentifierRest c = false := by
  have hspaces : ∀ n ∈ List.range' 9 5 ++ [32, 133, 160, 5760] ++ List.range' 8192 11 ++
      [8232, 8233, 8239, 8287, 12288], isIdentifierRest (Char.ofNat n) = false := by decide +kernel
  have hc := hspaces c.toNat (by simp [isSpace] at h ⊢; omega)
  rwa [Char.ofNat_toNat] at hc

theorem isSpace_of_isIdentifierRest {c : Char} (h : isIdentifierRest c = true) :
    isSpace c = false := by
  refine Bool.eq_false_iff.2 fun hspace => ?_
  rw [isIdentifierRest_of_isSpace hspace] at h
  cases h

theorem isNameChar_of_isSpace {c : Char} (h : isSpace c = true) : isNameChar c = false := by
  refine Bool.eq_false_iff.2 fun hname => ?_
  rw [isSpace_of_isIdentifierRest (isIdentifierRest_of_isNameChar hname)] at h
  cases h

theorem isSpace_of_isLooseWordChar {c : Char} (h : isLooseWordChar c = true) :
    isSpace c = false :=
  isSpace_of_isIdentifierRest (isIdentifierRest_of_isNameChar (isNameChar_of_isLooseWordChar h))

theorem isSpace_of_isBlank {c : Char} (h : isBlank c = true) : isSpace c = true := by
  simp only [isBlank, Bool.or_eq_true, beq_iff_eq] at h
  obtain (((rfl | rfl) | rfl) | rfl) | rfl := h <;> decide

theorem isBlank_of_isSpace {c : Char} (h : isSpace c = false) : isBlank c = false :=
  Bool.eq_false_iff.2 fun hblank => Bool.eq_false_iff.1 h (isSpace_of_isBlank hblank)

theorem isBlank_of_isIdentifierRest {c : Char} (h : isIdentifierRest c = true) :
    isBlank c = false :=
  isBlank_of_isSpace (isSpace_of_isIdentifierRest h)

theorem isBlank_of_isLooseWordChar {c : Char} (h : isLooseWordChar c = true) :
    isBlank c = false :=
  isBlank_of_isSpace (isSpace_of_isLooseWordChar h)

theorem isLooseWordChar_of_isBlank {c : Char} (h : isBlank c = true) :
    isLooseWordChar c = false :=
  isLooseWordChar_of_isNameChar (isNameChar_of_isSpace (isSpace_of_isBlank h))

theorem noWord_blanks_append {s t : List Char} (hs : ∀ c ∈ s, isBlank c = true)
    (ht : t.head?.any isLooseWordChar = false) : (s ++ t).head?.any isLooseWordChar = false := by
  cases s with
  | nil => exact ht
  | cons c cs => exact isLooseWordChar_of_isBlank (hs c List.mem_cons_self)

/-! ### Names -/

theorem splitIdentifier_append (s : List Char) :
    (splitIdentifier s).1 ++ (splitIdentifier s).2 = s := by
  cases s with
  | nil => rfl
  | cons c cs =>
    simp only [splitIdentifier]
    split
    · rw [List.cons_append, List.takeWhile_append_dropWhile]
    · rfl

theorem identifier_subset (s : List Char) : identifier s ⊆ s := by
  have h := List.subset_append_left (splitIdentifier s).1 (splitIdentifier s).2
  rwa [splitIdentifier_append] at h

theorem splitIdentifier_snd_subset (s : List Char) : (splitIdentifier s).2 ⊆ s := by
  have h := List.subset_append_right (splitIdentifier s).1 (splitIdentifier s).2
  rwa [splitIdentifier_append] at h

/-- The text is an identifier: a letter or the underscore, and then letters, numbers and
underscores. -/
def IsIdentifier (s : List Char) : Prop :=
  ∃ c cs, s = c :: cs ∧ isIdentifierStart c = true ∧ ∀ d ∈ cs, isIdentifierRest d = true

theorem identifier_isIdentifier {s : List Char} (h : identifier s ≠ []) :
    IsIdentifier (identifier s) := by
  cases s with
  | nil => exact absurd rfl h
  | cons c cs =>
    by_cases hc : isIdentifierStart c = true
    · have hread : identifier (c :: cs) = c :: cs.takeWhile isIdentifierRest := by
        rw [identifier, splitIdentifier, if_pos hc]
      exact ⟨c, _, hread, hc, List.all_eq_true.1 List.all_takeWhile⟩
    · exact absurd (by rw [identifier, splitIdentifier, if_neg hc]) h

theorem IsIdentifier.ne_nil {v : List Char} (h : IsIdentifier v) : v ≠ [] := by
  obtain ⟨c, cs, rfl, -⟩ := h
  exact List.cons_ne_nil c cs

theorem IsIdentifier.isIdentifierRest_of_mem {v : List Char} (h : IsIdentifier v) {c : Char}
    (hc : c ∈ v) : isIdentifierRest c = true := by
  obtain ⟨d, ds, rfl, hstart, hrest⟩ := h
  obtain rfl | hc := List.mem_cons.1 hc
  · simp only [isIdentifierStart, Bool.or_eq_true] at hstart
    simp only [isIdentifierRest, Bool.or_eq_true]
    exact .inl hstart
  · exact hrest c hc

theorem IsIdentifier.splitIdentifier_append {v : List Char} (h : IsIdentifier v) {rest : List Char}
    (hrest : rest.head?.any isIdentifierRest = false) :
    splitIdentifier (v ++ rest) = (v, rest) := by
  obtain ⟨c, cs, rfl, hstart, hcs⟩ := h
  rw [List.cons_append, splitIdentifier, if_pos hstart, takeWhile_run_append hcs hrest,
    dropWhile_run_append hcs hrest]

theorem splitWord?_append {word rest : List Char} (hne : word ≠ [])
    (hword : ∀ c ∈ word, isLooseWordChar c = true)
    (hrest : rest.head?.any isLooseWordChar = false) :
    splitWord? (word ++ rest) = some (word, rest) := by
  simp only [splitWord?, takeWhile_run_append hword hrest, dropWhile_run_append hword hrest]
  exact if_neg (by simpa using hne)

theorem splitWord?_eq_none {s : List Char} (h : s.head?.any isLooseWordChar = false) :
    splitWord? s = none := by
  cases s with
  | nil => rfl
  | cons c cs =>
    have hc : isLooseWordChar c = false := h
    simp only [splitWord?, List.takeWhile_cons, hc, Bool.false_eq_true, if_false, List.isEmpty_nil,
      if_true]

theorem eq_append_of_splitWord? {s word rest : List Char} (h : splitWord? s = some (word, rest)) :
    s = word ++ rest := by
  simp only [splitWord?] at h
  split at h
  · cases h
  · cases h
    exact List.takeWhile_append_dropWhile.symm

theorem isLooseWordChar_of_splitWord? {s word rest : List Char}
    (h : splitWord? s = some (word, rest)) : ∀ c ∈ word, isLooseWordChar c = true := by
  simp only [splitWord?] at h
  split at h
  · cases h
  · cases h
    exact List.all_eq_true.1 List.all_takeWhile

end Text

end Pseudocode
