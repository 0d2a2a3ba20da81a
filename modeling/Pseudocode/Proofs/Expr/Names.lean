import Pseudocode.Proofs.Expr.Rewriting

/-!
# Names in expressions

The rules look for keywords between borders of ASCII words, so to them a letter beyond ASCII is no
part of a word: `AÑO` ends in the operator `O`.  Names that hold no keyword in this sense survive
the conversions, and names of ASCII characters hold a keyword only if they are one.

* `HoldsKeyword` : a keyword stands in a name between borders of ASCII words.
* `Rewrites.names_sublist` : what one pass keeps.
* `names_survive` : **names survive the conversions, unless they hold a keyword.**
* `name_with_enye_is_cut` : a name that does not.
-/

namespace Pseudocode

namespace Expr

open Scan

/-- A keyword stands in the name, and no ASCII word goes on at its ends. -/
def HoldsKeyword (name : List Char) : Prop :=
  ∃ front k back, name = front ++ (k ++ back) ∧ IsKeyword k ∧ NoWord front.getLast? ∧
    NoWord back.head?

theorem holdsKeyword_iff {name : List Char} :
    HoldsKeyword name ↔ ∃ front rest, name = front ++ rest ∧
      ∃ i ∈ List.range (rest.length + 1), IsKeyword (rest.take i) ∧ NoWord front.getLast? ∧
        NoWord (rest.drop i).head? := by
  have hrest : ∀ front rest : List Char, (∃ k back, rest = k ++ back ∧
      (IsKeyword k ∧ NoWord front.getLast? ∧ NoWord back.head?)) ↔ _ := fun front rest =>
    Text.exists_append_iff
  constructor
  · rintro ⟨front, k, back, rfl, h⟩
    exact ⟨front, k ++ back, rfl, (hrest front _).1 ⟨k, back, rfl, h⟩⟩
  · rintro ⟨front, rest, rfl, hcut⟩
    obtain ⟨k, back, rfl, h⟩ := (hrest front rest).2 hcut
    exact ⟨front, k, back, rfl, h⟩

instance (name : List Char) : Decidable (HoldsKeyword name) :=
  decidable_of_iff _ (holdsKeyword_iff.trans Text.exists_append_iff).symm

example : HoldsKeyword "AÑO".toList ∧ ¬ HoldsKeyword "OTRO_NO".toList := by decide

/-! ### One pass -/

theorem namesFrom_literal_append {q : Quote} {u s : List Char} (hu : QuoteFree u) :
    namesFrom (.literal q) [] (u ++ s) = namesFrom (.literal q) [] s := by
  induction u with
  | nil => rfl
  | cons c u ih =>
    obtain ⟨hc, hu⟩ := List.forall_mem_cons.1 hu
    rw [List.cons_append, namesFrom_literal, Region.after_of_isQuote_eq_false hc, ih hu]
    rfl

theorem namesFrom_code_symbols {held u s : List Char} (hu : IsSymbols u) :
    namesFrom .code held (u ++ s) = ended held ++ namesFrom .code [] s := by
  obtain ⟨hne, hu⟩ := hu
  induction u generalizing held with
  | nil => exact absurd rfl hne
  | cons c u ih =>
    obtain ⟨hc, hu⟩ := List.forall_mem_cons.1 hu
    rw [List.cons_append, namesFrom_other _ hc.1, Region.after_of_isQuote_eq_false hc.2]
    cases u with
    | nil => rfl
    | cons d u => exact congrArg _ (ih (List.cons_ne_nil d u) hu)

/-- The names that hold no keyword. -/
def withoutKeywords (names : List (List Char)) : List (List Char) :=
  names.filter fun name => ¬ HoldsKeyword name

theorem withoutKeywords_append (ms ns : List (List Char)) :
    withoutKeywords (ms ++ ns) = withoutKeywords ms ++ withoutKeywords ns :=
  List.filter_append ..

theorem withoutKeywords_sublist (ns : List (List Char)) : (withoutKeywords ns).Sublist ns :=
  List.filter_sublist

/-- What is held of a name on both sides of a pass, in front of the rest `s` of the text: the same,
unless the name holds a keyword.  What is held on the left ends with the character before the
rest. -/
def InStep (r : Region) (before : Option Char) (held held' s : List Char) : Prop :=
  match r with
  | .literal _ => held = [] ∧ held' = []
  | .code => (held = [] ∨ held.getLast? = before) ∧
    (held = held' ∨ HoldsKeyword (held ++ s.takeWhile Text.isNameChar))

namespace InStep

theorem start (r : Region) (before : Option Char) (s : List Char) : InStep r before [] [] s := by
  cases r with
  | code => exact ⟨.inl rfl, .inl rfl⟩
  | literal q => exact ⟨rfl, rfl⟩

variable {before : Option Char} {held held' k s : List Char} {c : Char}

theorem name (h : InStep .code before held held' (c :: s)) (hc : Text.isNameChar c = true) :
    InStep .code (some c) (held ++ [c]) (held' ++ [c]) s := by
  refine ⟨.inr (List.getLast?_concat ..), ?_⟩
  obtain ⟨-, rfl | hkeyword⟩ := h
  · exact .inl rfl
  · right
    rwa [List.takeWhile_cons_of_pos hc, List.append_cons] at hkeyword

/-- The name on the left goes on over a keyword, so it does not count whatever is written on the
right. -/
theorem keyword (h : InStep .code before held held' (k ++ s)) (hk : IsKeyword k)
    (hbefore : NoWord before) (hafter : NoWord s.head?) (written : List Char) :
    InStep .code k.getLast? (held ++ k) written s := by
  refine ⟨.inr (List.getLast?_append_of_ne_nil _ hk.ne_nil), .inr ?_⟩
  refine ⟨held, k, s.takeWhile Text.isNameChar, List.append_assoc .., hk, ?_, ?_⟩
  · obtain ⟨rfl | hlast, -⟩ := h
    · rfl
    · rwa [hlast]
  · cases s with
    | nil => rfl
    | cons c s =>
      rw [List.takeWhile_cons]
      split
      · exact hafter
      · rfl

theorem ended_sublist (h : InStep .code before held held' s)
    (hs : s.head?.any Text.isNameChar = false) :
    (withoutKeywords (ended held)).Sublist (ended held') := by
  obtain ⟨-, rfl | h⟩ := h
  · exact withoutKeywords_sublist _
  · have hend : s.takeWhile Text.isNameChar = [] := by
      cases s with
      | nil => rfl
      | cons c cs => exact List.takeWhile_cons_of_neg (by simpa using hs)
    rw [hend, List.append_nil] at h
    have hnone : withoutKeywords (ended held) = [] := by
      unfold ended
      split
      · rfl
      · simp [withoutKeywords, h]
    rw [hnone]
    exact List.nil_sublist _

end InStep

/-- **What one pass keeps:** the names that hold no keyword, in order. -/
theorem Rewrites.names_sublist {before : Option Char} {s t : List Char} (h : Rewrites before s t)
    {r : Region} {held held' : List Char} (hstep : InStep r before held held' s) :
    (withoutKeywords (namesFrom r held s)).Sublist (namesFrom r held' t) := by
  induction h generalizing r held held' with
  | nil =>
    cases r with
    | code => exact hstep.ended_sublist rfl
    | literal q =>
      obtain ⟨rfl, rfl⟩ := hstep
      exact withoutKeywords_sublist _
  | @copy before c s t rest ih =>
    cases r with
    | literal q =>
      obtain ⟨rfl, rfl⟩ := hstep
      exact ih (.start _ _ _)
    | code =>
      cases hc : Text.isNameChar c with
      | false =>
        rw [namesFrom_other _ hc, namesFrom_other _ hc, withoutKeywords_append]
        exact (hstep.ended_sublist hc).append (ih (.start _ _ _))
      | true =>
        rw [namesFrom_code_name hc, namesFrom_code_name hc]
        exact ih (hstep.name hc)
  | @symbols before u v s t hu hv rest ih =>
    cases r with
    | literal q =>
      obtain ⟨rfl, rfl⟩ := hstep
      rw [namesFrom_literal_append fun c hc => (hu.2 c hc).2,
        namesFrom_literal_append fun c hc => (hv.2 c hc).2]
      exact ih (.start _ _ _)
    | code =>
      have hhead : (u ++ s).head?.any Text.isNameChar = false := by
        obtain ⟨c, u, rfl⟩ := List.exists_cons_of_ne_nil hu.1
        exact (hu.2 c List.mem_cons_self).1
      rw [namesFrom_code_symbols hu, namesFrom_code_symbols hv, withoutKeywords_append]
      exact (hstep.ended_sublist hhead).append (ih (.start _ _ _))
  | @keyword before k v s t hk hbefore hafter hv rest ih =>
    cases r with
    | literal q =>
      obtain ⟨rfl, rfl⟩ := hstep
      rw [namesFrom_literal_append hk.quoteFree, namesFrom_literal_append hv]
      exact ih (.start _ _ _)
    | code =>
      obtain ⟨names, written, hnames⟩ := exists_namesFrom_append .code held' v
      rw [Region.afterAll_of_quoteFree hv] at hnames
      rw [namesFrom_code_append hk.isNameChar, hnames]
      refine (ih ?_).trans (List.sublist_append_right _ _)
      exact hstep.keyword hk hbefore hafter written

/-! ### The conversions -/

theorem codeNames_applyRules (rules : List Rule) (s : List Char) :
    (withoutKeywords (codeNames s)).Sublist (codeNames (applyRules rules s)) := by
  suffices h : (withoutKeywords (codeNames s)).Sublist
      (withoutKeywords (codeNames (applyRules rules s))) from h.trans (withoutKeywords_sublist _)
  have hpasses := applyRules_rewrites rules s
  generalize applyRules rules s = t at hpasses ⊢
  induction hpasses with
  | refl => exact .refl _
  | tail _ hpass ih =>
    -- a name that is kept holds no keyword, so the next pass keeps it as well
    have hfree := (hpass.names_sublist (.start .code none _)).filter fun name => ¬ HoldsKeyword name
    rw [withoutKeywords, List.filter_filter] at hfree
    exact ih.trans (by simpa [withoutKeywords, codeNames] using hfree)

/-- A name of ASCII characters holds a keyword only if it is one: no border lies inside it. -/
theorem holdsKeyword_iff_isKeyword {name : List Char}
    (h : ∀ c ∈ name, Text.isWordChar c = true) : HoldsKeyword name ↔ IsKeyword name := by
  constructor
  · rintro ⟨front, k, back, rfl, hk, hfront, hback⟩
    have hfront : front = [] := by
      by_contra hne
      have hlast := h (front.getLast hne) (by simp)
      simp [NoWord, List.getLast?_eq_some_getLast hne, hlast] at hfront
    have hback : back = [] := by
      by_contra hne
      obtain ⟨c, back, rfl⟩ := List.exists_cons_of_ne_nil hne
      have hhead := h c (by simp)
      simp [NoWord, hhead] at hback
    simpa [hfront, hback] using hk
  · intro hk
    exact ⟨[], name, [], by simp, hk, rfl, rfl⟩

/-- A name of ASCII characters that is no keyword stands in the result as well. -/
theorem exists_nameAt_applyRules (rules : List Rule) {front name back : List Char}
    (hat : NameAt front name back) (hascii : ∀ c ∈ name, Text.isWordChar c = true)
    (hkeyword : ¬ IsKeyword name) :
    ∃ front' back', applyRules rules (front ++ (name ++ back)) = front' ++ (name ++ back') ∧
      NameAt front' name back' := by
  rw [← mem_codeNames_iff]
  refine (codeNames_applyRules rules _).subset (List.mem_filter.2 ⟨hat.mem_codeNames, ?_⟩)
  rw [decide_eq_true_eq, holdsKeyword_iff_isKeyword hascii]
  exact hkeyword

/-- **Names survive the conversions, unless they hold a keyword.**  The names outside literals that
hold no keyword between borders of ASCII words are found again, all of them and in order, outside
the literals of the result.  So a name of ASCII characters survives unless it is a keyword. -/
theorem names_survive (s : List Char) :
    ((withoutKeywords (codeNames s)).Sublist (codeNames (expression s)) ∧
      (withoutKeywords (codeNames s)).Sublist (codeNames (condition s))) ∧
    ∀ front name back, s = front ++ (name ++ back) → NameAt front name back →
      (∀ c ∈ name, Text.isWordChar c = true) → ¬ IsKeyword name →
      (∃ front' back', expression s = front' ++ (name ++ back') ∧ NameAt front' name back') ∧
      ∃ front' back', condition s = front' ++ (name ++ back') ∧ NameAt front' name back' := by
  refine ⟨⟨codeNames_applyRules expressionRules s, codeNames_applyRules conditionRules s⟩, ?_⟩
  rintro front name back rfl hat hascii hkeyword
  exact ⟨exists_nameAt_applyRules expressionRules hat hascii hkeyword,
    exists_nameAt_applyRules conditionRules hat hascii hkeyword⟩

/-- The letter before the `O` is no ASCII letter, so the `O` is taken for the disjunction: the name
is cut, though it is no keyword. -/
theorem name_with_enye_is_cut :
    let s := "AÑO".toList
    codeNames s = [s] ∧ ¬ IsKeyword s ∧ expression s = "AÑ||".toList ∧
      condition s = "AÑ||".toList ∧ s ∉ codeNames (expression s) := by
  decide +kernel

end Expr

end Pseudocode
