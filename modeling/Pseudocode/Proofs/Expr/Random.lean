import Pseudocode.Expr.Random
import Pseudocode.Proofs.Pattern

/-!
# Calls of `azar`

A call of `azar` holds no quotes, so it lies in code or in one literal.  Where no literal holds
one, every call that is replaced starts in code, its argument ends in code, and literals pass
through the replacement unchanged.

* `eq_append_of_breakAzar?` : what the first call of a text consists of.
* `literals_random` : **replacing the calls keeps the literals.**
-/

namespace Pseudocode

namespace Expr

open Scan

/-- A call of `azar` starts in the text at the border of a word.  Its parenthesis need not be closed
in the text: one that opens in a literal may be closed behind it. -/
def HoldsAzar (s : List Char) : Prop :=
  ∃ front read blanks back, s = front ++ (read ++ (blanks ++ '(' :: back)) ∧
    read.map Text.keyChar = "azar".toList ∧ (∀ c ∈ blanks, Text.isBlank c = true) ∧
    Text.atBoundary front.getLast? read.head? = true

theorem afterAzar?_eq_some_iff {before : Option Char} {s argument : List Char} :
    afterAzar? before s = some argument ↔
      ∃ read blanks, s = read ++ (blanks ++ '(' :: argument) ∧
        read.map Text.keyChar = "azar".toList ∧ (∀ c ∈ blanks, Text.isBlank c = true) ∧
        Text.atBoundary before read.head? = true := by
  constructor
  · intro h
    unfold afterAzar? at h
    split at h
    · rename_i read rest hs
      obtain ⟨hread, rfl⟩ := Text.splitKey?_eq_some_iff.1 hs
      split at h
      · rename_i argument' hb hrest
        cases h
        refine ⟨read, rest.takeWhile Text.isBlank, ?_, hread, ?_, hb⟩
        · rw [← hrest, Text.skipBlanks, List.takeWhile_append_dropWhile]
        · exact List.all_eq_true.1 List.all_takeWhile
      · cases h
    · cases h
  · rintro ⟨read, blanks, rfl, hread, hblanks, hb⟩
    have hs : Text.splitKey? "azar".toList (read ++ (blanks ++ '(' :: argument)) =
        some (read, blanks ++ '(' :: argument) := Text.splitKey?_eq_some_iff.2 ⟨hread, rfl⟩
    have hrest : Text.skipBlanks (blanks ++ '(' :: argument) = '(' :: argument :=
      List.dropWhile_append_of_pos hblanks
    simp only [afterAzar?, hs, hb, hrest]

theorem holdsAzar_iff {s : List Char} :
    HoldsAzar s ↔
      ∃ front rest, s = front ++ rest ∧ (afterAzar? front.getLast? rest).isSome = true := by
  simp only [Option.isSome_iff_exists, afterAzar?_eq_some_iff]
  constructor
  · rintro ⟨front, read, blanks, back, hs, hazar⟩
    exact ⟨front, _, hs, back, read, blanks, rfl, hazar⟩
  · rintro ⟨front, _, hs, back, read, blanks, rfl, hazar⟩
    exact ⟨front, read, blanks, back, hs, hazar⟩

instance (s : List Char) : Decidable (HoldsAzar s) :=
  decidable_of_iff _ (holdsAzar_iff.trans Text.exists_append_iff).symm

theorem eq_append_of_breakAzar? {before : Option Char} {s front argument : List Char}
    (h : breakAzar? before s = some (front, argument)) :
    ∃ read blanks, s = front ++ (read ++ (blanks ++ '(' :: argument)) ∧
      read.map Text.keyChar = "azar".toList ∧ (∀ c ∈ blanks, Text.isBlank c = true) ∧
      Text.atBoundary (front.getLast?.or before) read.head? = true := by
  induction s generalizing before front with
  | nil => cases h
  | cons c cs ih =>
    rw [breakAzar?] at h
    split at h
    · rename_i ha
      cases h
      exact afterAzar?_eq_some_iff.1 ha
    · simp only [Option.map_eq_some_iff, Prod.exists, Prod.mk.injEq] at h
      obtain ⟨front', argument', hcs, rfl, rfl⟩ := h
      obtain ⟨read, blanks, rfl, hread, hblanks, hb⟩ := ih hcs
      refine ⟨read, blanks, rfl, hread, hblanks, ?_⟩
      rwa [Text.getLast?_cons_or]

theorem azar_quoteFree {read blanks : List Char} (hread : read.map Text.keyChar = "azar".toList)
    (hblanks : ∀ c ∈ blanks, Text.isBlank c = true) : QuoteFree (read ++ (blanks ++ ['('])) :=
  (quoteFree_of_map_keyChar (by decide) hread).append
    ((quoteFree_of_forall rfl rfl hblanks).append (by decide))

theorem afterAll_front_eq_code {front read blanks argument : List Char}
    (h : ∀ text ∈ literals (front ++ (read ++ (blanks ++ '(' :: argument))), ¬ HoldsAzar text)
    (hread : read.map Text.keyChar = "azar".toList)
    (hblanks : ∀ c ∈ blanks, Text.isBlank c = true)
    (hb : Text.atBoundary front.getLast? read.head? = true) :
    Region.code.afterAll front = .code := by
  cases hr : Region.code.afterAll front with
  | code => rfl
  | literal q =>
    -- the call would belong to the literal in which it starts
    obtain ⟨text, htext, start, back, hlast, rfl⟩ :=
      exists_literal_of_region hr (azar_quoteFree hread hblanks) argument
    have hazar : HoldsAzar (start ++ (read ++ (blanks ++ ['(']) ++ back)) :=
      ⟨start, read, blanks, back, by simp, hread, hblanks, by rwa [hlast]⟩
    exact absurd hazar (h _ (by simpa using htext))

/-- Trimming a text that ends in code removes code only. -/
theorem literals_trim {s : List Char} (h : Region.code.afterAll s = .code) :
    literals (Text.trim s) = literals s ∧ Region.code.afterAll (Text.trim s) = .code := by
  obtain ⟨front, back, hfront, hback, hs⟩ := Text.exists_trim_eq s
  have hf : QuoteFree front := quoteFree_of_forall rfl rfl hfront
  have hb : QuoteFree back := quoteFree_of_forall rfl rfl hback
  have hr : Region.code.afterAll (Text.trim s) = .code := by
    rw [hs] at h
    simpa [Region.afterAll_of_quoteFree hf, Region.afterAll_of_quoteFree hb] using h
  refine ⟨?_, hr⟩
  conv_rhs => rw [hs, literals_append_of_quoteFree hf, literals_append hr,
    literals_of_quoteFree hb, List.append_nil]

theorem literals_call {front head inside close : List Char}
    (hfront : Region.code.afterAll front = .code) (hhead : QuoteFree head)
    (hinside : Region.code.afterAll inside = .code) (hclose : QuoteFree close)
    (rest : List Char) :
    literals (front ++ (head ++ (inside ++ (close ++ rest)))) =
        literals front ++ (literals inside ++ literals rest) ∧
      Region.code.afterAll (front ++ (head ++ (inside ++ (close ++ rest)))) =
        Region.code.afterAll rest := by
  constructor
  · rw [literals_append hfront, literals_append_of_quoteFree hhead, literals_append hinside,
      literals_append_of_quoteFree hclose]
  · simp [hfront, Region.afterAll_of_quoteFree hhead, hinside,
      Region.afterAll_of_quoteFree hclose]

/-- **Replacing the calls keeps the literals,** and the region in which the text ends. -/
theorem literals_random {s : List Char} (h : ∀ text ∈ literals s, ¬ HoldsAzar text) :
    literals (random s) = literals s ∧
      Region.code.afterAll (random s) = Region.code.afterAll s := by
  fun_induction random s with
  | case1 s => exact ⟨rfl, rfl⟩
  | case2 s front argument hs hclose => exact ⟨rfl, rfl⟩
  | case3 s front argument hs inside rest hclose _ _ _ ihInside ihRest =>
    obtain ⟨read, blanks, rfl, hread, hblanks, hb⟩ := eq_append_of_breakAzar? hs
    rw [Option.or_none] at hb
    obtain ⟨c, hc, hinside, rfl⟩ := eq_append_of_closeParen? hclose
    have hparen : QuoteFree [c] := by simp [QuoteFree, hc, Role.isQuote]
    have hfront := afterAll_front_eq_code h hread hblanks hb
    obtain ⟨hliterals, hregion⟩ :=
      literals_call hfront (azar_quoteFree hread hblanks) hinside hparen rest
    simp only [List.append_assoc, List.cons_append, List.nil_append] at hliterals hregion
    rw [hliterals] at h ⊢
    rw [hregion]
    -- the closing parenthesis is found in code, so the argument ends in code and can be trimmed
    obtain ⟨htrim, hcode⟩ := literals_trim hinside
    obtain ⟨hInside, hInsideCode⟩ := ihInside fun text htext => h text (by
      rw [htrim] at htext
      simp [htext])
    obtain ⟨hRest, hRestCode⟩ := ihRest fun text htext => h text (by simp [htext])
    rw [hcode] at hInsideCode
    obtain ⟨hliterals', hregion'⟩ := literals_call hfront
      (by decide : QuoteFree "Math.floor(Math.random() * (".toList) hInsideCode
      (by decide : QuoteFree "))".toList) (random rest)
    simp only [List.append_assoc]
    exact ⟨by rw [hliterals', hInside, htrim, hRest], by rw [hregion', hRestCode]⟩

/-- A call that opens in one literal is closed in the next one, and both change. -/
example : literals (random "\"azar(\" + \")\"".toList) =
    ["\"Math.floor(Math.random() * (\"".toList, "\"))\"".toList] := by decide +kernel

end Expr

end Pseudocode
