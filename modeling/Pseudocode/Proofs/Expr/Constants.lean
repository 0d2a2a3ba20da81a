import Mathlib.Data.List.Infix
import Pseudocode.Proofs.Expr.Rewriting
import Pseudocode.Statement.Simple

/-!
# Boolean constants

Once the boolean constants are replaced, no rule brings them back.  A constant of an edited text
cannot start inside a text that has been written, and the letters that follow its first one have
been copied: a word that is edited starts at a border, and the only letter of a constant that is no
ASCII letter, the long s of `Falſo`, is followed by a letter with which no written text starts.

* `Edits.exists_constant` : **a constant of an edited text stands in the text before.**
* `not_holdsWord_replaceAll` : replacing a constant leaves none.
* `booleans_final` : **a second pass over the boolean constants changes nothing.**
-/

namespace Pseudocode

namespace Expr

/-- The boolean constants, in lower case. -/
def constants : List (List Char) := ["verdadero".toList, "falso".toList]

theorem constants_wholeWords : ∀ word ∈ constants, word ∈ wholeWords := by decide

/-- The letters of a constant are ASCII letters; only the long s may stand for one of them. -/
theorem constants_letters :
    ∀ word ∈ constants, ∀ c ∈ word, Text.isWordChar c = true ∧ c ≠ 'k' := by
  have hall : ∀ word ∈ constants, word.all (fun c => Text.isWordChar c && c != 'k') = true := by
    decide
  intro word hword c hc
  simpa using List.all_eq_true.1 (hall word hword) c hc

/-- No end of a written text is the beginning of a constant, and none starts with one. -/
theorem written_apart : ∀ v ∈ written, ∀ x ∈ v.tails, x ≠ [] → ∀ word ∈ constants,
    ¬ x.map Text.keyChar <+: word ∧ ¬ word <+: x.map Text.keyChar := by decide +kernel

/-- Behind the letter for which the long s stands comes an `o`, with which nothing written
starts. -/
theorem constants_after_s : ∀ word ∈ constants, ∀ x ∈ word.tails, x.head? = some 's' →
    x.tail.head? = some 'o' := by decide

theorem written_head? : ∀ v ∈ written, v.head?.map Text.keyChar ≠ some 'o' := by decide +kernel

variable {word read x y s t u v front back : List Char} {b : Char} {before before' : Option Char}
  {rule : Rule}

theorem exists_front_of_written (hword : word ∈ constants) (hread : read.map Text.keyChar = word)
    (hv : v ∈ written) (h : v ++ t = front ++ (read ++ back)) :
    ∃ front', front = v ++ front' ∧ t = front' ++ (read ++ back) := by
  obtain h | ⟨x, rfl, hx⟩ := List.append_eq_append_iff.1 h
  · exact h
  · by_cases hne : x = []
    · subst hne
      exact ⟨[], by simp, hx.symm⟩
    · have hend := (List.mem_tails x _).2 (List.suffix_append front x)
      have happart := written_apart _ hv x hend hne word hword
      obtain ⟨z, rfl, -⟩ | ⟨z, rfl, -⟩ := List.append_eq_append_iff.1 hx
      · exact absurd ⟨z.map Text.keyChar, by rw [← hread, List.map_append]⟩ happart.2
      · exact absurd ⟨z.map Text.keyChar, by rw [← hread, List.map_append]⟩ happart.1

theorem exists_cons_of_constant (hword : word ∈ constants) (hread : read.map Text.keyChar = word) :
    ∃ c x, read = c :: x ∧ ¬ NoWord (some c) := by
  obtain ⟨hhead, -⟩ := ends_isWordChar (constants_wholeWords word hword) hread
  cases read with
  | nil => cases hhead
  | cons c x => exact ⟨c, x, rfl, by simpa [NoWord] using hhead⟩

/-- No word goes on behind a letter of a constant only if that is the long s. -/
theorem head?_of_noWord (hword : word ∈ constants) (hx : (b :: x).map Text.keyChar <:+ word)
    (hb : NoWord (some b)) : x.head?.map Text.keyChar = some 'o' := by
  have hmem : Text.keyChar b ∈ word := hx.subset (by simp)
  obtain ⟨hletter, hk⟩ := constants_letters word hword _ hmem
  have hs : Text.keyChar b = 's' := by
    by_contra hs
    have hascii := Text.isWordChar_of_keyChar hletter hs hk
    simp [NoWord, hascii] at hb
  have hnext := constants_after_s word hword _ ((List.mem_tails _ _).2 hx) (by simp [hs])
  simpa using hnext

/-- Behind its first letter, a constant is copied up to its end. -/
theorem Edits.exists_tail (hword : word ∈ constants) (hx : (b :: x).map Text.keyChar <:+ word)
    (h : Edits rule (some b) s (x ++ y)) (hy : NoWord y.head?) :
    ∃ y', s = x ++ y' ∧ NoWord y'.head? := by
  induction x generalizing b s with
  | nil =>
    have hb : ¬ NoWord (some b) := fun hb => by cases head?_of_noWord hword hx hb
    refine ⟨s, rfl, ?_⟩
    rw [List.nil_append] at h
    cases h with
    | nil => rfl
    | copy c rest => exact hy
    | edit h hleft _ _ =>
      rw [List.head?_append_of_ne_nil _ h.ne_nil]
      exact .of_any_isNameChar (hleft.resolve_left hb)
  | cons c x ih =>
    have hsuffix : (c :: x).map Text.keyChar <:+ word := (List.suffix_cons _ _).trans hx
    -- what is written here would start with the letter `c`
    obtain ⟨s, rfl, hrest⟩ := h.of_cons_target fun u v t hedit hleft ht => by
      have hhead := hedit.head?_written ht
      obtain hb | hu := hleft
      · have ho := written_head? v hedit.mem_written
        rw [hhead] at ho
        exact absurd (head?_of_noWord hword hx hb) ho
      · have hname := hedit.head?_of_sign hu
        have hletter := (constants_letters word hword (Text.keyChar c) (hsuffix.subset (by simp))).1
        rw [hhead, Option.any_some, Text.isNameChar_of_isLooseWordChar hletter] at hname
        cases hname
    obtain ⟨y', rfl, hy'⟩ := ih hsuffix hrest
    exact ⟨y', rfl, hy'⟩

/-- **A constant of an edited text stands in the text before,** between borders again.  The text
follows `before`, and what is made of it follows `before'`. -/
theorem Edits.exists_constant (hword : word ∈ constants) (hread : read.map Text.keyChar = word)
    (h : Edits rule before s t) (hbefore : NoWord before' → NoWord before ∨ NoWord s.head?)
    (ht : t = front ++ (read ++ back)) (hleft : NoWord (front.getLast?.or before'))
    (hright : NoWord back.head?) :
    ∃ front' back', s = front' ++ (read ++ back') ∧ NoWord (front'.getLast?.or before) ∧
      NoWord back'.head? := by
  obtain ⟨c, x, rfl, hletter⟩ := exists_cons_of_constant hword hread
  induction h generalizing before' front with
  | nil => cases front <;> cases ht
  | @copy before d s t rest ih =>
    cases front with
    | nil =>
      -- the constant starts here, so a word that goes on before it would go on in it
      obtain ⟨rfl, rfl⟩ := List.cons_eq_cons.1 ht
      obtain ⟨back', rfl, hright⟩ := rest.exists_tail hword (hread ▸ List.suffix_refl _) hright
      exact ⟨[], back', rfl, (hbefore hleft).resolve_right hletter, hright⟩
    | cons e front =>
      obtain ⟨rfl, rfl⟩ := List.cons_eq_cons.1 ht
      rw [Text.getLast?_cons_or] at hleft
      obtain ⟨front', back', rfl, hleft, hright⟩ := ih .inl hleft rfl
      exact ⟨d :: front', back', rfl, by rwa [Text.getLast?_cons_or], hright⟩
  | @edit before u v s t h _ hafter _ ih =>
    obtain ⟨front, rfl, rfl⟩ := exists_front_of_written hword hread h.mem_written ht
    rw [getLast?_append_or (written_ne_nil v h.mem_written)] at hleft
    have hborder : NoWord u.getLast? ∨ NoWord s.head? :=
      (hafter.imp_right .of_any_isNameChar).symm
    obtain ⟨front', back', rfl, hleft, hright⟩ := ih (fun _ => hborder) hleft rfl
    refine ⟨u ++ front', back', by rw [List.append_assoc], ?_, hright⟩
    rwa [getLast?_append_or h.ne_nil]

/-! ### Replacing the constants -/

theorem holdsWord_iff_noWord (hword : word ∈ wholeWords) :
    HoldsWord word s ↔ ∃ front read back, s = front ++ (read ++ back) ∧
      read.map Text.keyChar = word ∧ NoWord front.getLast? ∧ NoWord back.head? := by
  constructor
  · rintro ⟨front, read, back, hs, hread, hleft, hright⟩
    exact ⟨front, read, back, hs, hread, (atBoundary_left_iff hword hread).1 hleft,
      (atBoundary_right_iff hword hread).1 hright⟩
  · rintro ⟨front, read, back, hs, hread, hleft, hright⟩
    exact ⟨front, read, back, hs, hread, (atBoundary_left_iff hword hread).2 hleft,
      (atBoundary_right_iff hword hread).2 hright⟩

theorem Edits.holdsWord (hword : word ∈ constants) (h : Edits rule none s t)
    (ht : HoldsWord word t) : HoldsWord word s := by
  rw [holdsWord_iff_noWord (constants_wholeWords word hword)] at ht ⊢
  obtain ⟨front, read, back, ht, hread, hleft, hright⟩ := ht
  rw [← Option.or_none (o := front.getLast?)] at hleft
  obtain ⟨front', back', hs, hleft, hright⟩ := h.exists_constant hword hread .inl ht hleft hright
  exact ⟨front', read, back', hs, hread, by rwa [Option.or_none] at hleft, hright⟩

/-- Where a constant is replaced, none is left.  The text follows `before`, and what is made of it
follows `before'`. -/
theorem replaceFrom_ne_constant (hword : word ∈ constants)
    (hedit : (.booleans, word, v) ∈ wordEdits) (hread : read.map Text.keyChar = word)
    (hbefore : NoWord before' → NoWord before ∨ NoWord s.head?)
    (hleft : NoWord (front.getLast?.or before')) (hright : NoWord back.head?) :
    replaceFrom (wordPattern word v) before 0 s ≠ front ++ (read ++ back) := by
  have hwhole := constants_wholeWords word hword
  have hwritten : v ∈ written := (Edit.word (hread.symm ▸ hedit)).mem_written
  obtain ⟨c, x, rfl, hletter⟩ := exists_cons_of_constant hword hread
  -- the search goes on behind an occurrence, so the induction is on the length of the text
  induction hn : s.length using Nat.strongRecOn generalizing s before before' front with
  | ind n ih =>
    subst hn
    intro ht
    cases s with
    | nil => cases front <;> cases ht
    | cons d ds =>
      cases hocc : wordPattern word v before (d :: ds) with
      | none =>
        simp only [replaceFrom, hocc] at ht
        cases front with
        | nil =>
          -- the constant has been copied, so it stood here before, where the pattern takes it
          obtain ⟨rfl, hrest⟩ := List.cons_eq_cons.1 ht
          have hedits := replaceFrom_edits (wordPattern_edits hedit) (some d) ds
          rw [hrest] at hedits
          obtain ⟨back', rfl, hright⟩ :=
            hedits.exists_tail hword (hread ▸ List.suffix_refl _) hright
          have hbefore := (hbefore hleft).resolve_right hletter
          have hsome : wordPattern word v before (d :: x ++ back') = some ((d :: x).length, v) :=
            wordPattern_eq_some_iff.2 ⟨d :: x, back', ⟨hread, rfl⟩,
              (atBoundary_right_iff hwhole hread).2 hright,
              (atBoundary_left_iff hwhole hread).2 hbefore, rfl, rfl⟩
          rw [List.cons_append, hocc] at hsome
          cases hsome
        | cons e front =>
          obtain ⟨rfl, hrest⟩ := List.cons_eq_cons.1 ht
          rw [Text.getLast?_cons_or] at hleft
          exact ih _ (by simp) .inl hleft rfl hrest
      | some occ =>
        obtain ⟨n, w⟩ := occ
        obtain ⟨spelled, rest, ⟨hspelled, hs⟩, hafter, -, rfl, rfl⟩ :=
          wordPattern_eq_some_iff.1 hocc
        have hne : spelled ≠ [] := (Edit.word (hspelled.symm ▸ hedit)).ne_nil
        have hshorter : rest.length < (d :: ds).length := by
          have := List.length_pos_iff.2 hne
          rw [hs, List.length_append]
          omega
        rw [hs] at hocc ht
        rw [replaceFrom_occurrence hne hocc] at ht
        obtain ⟨front', rfl, hrest⟩ := exists_front_of_written hword hread hwritten ht
        rw [getLast?_append_or (written_ne_nil w hwritten)] at hleft
        have hborder := (atBoundary_right_iff hwhole hspelled).1 hafter
        exact ih _ hshorter (fun _ => .inr hborder) hleft rfl hrest

theorem not_holdsWord_replaceAll (hword : word ∈ constants)
    (hedit : (.booleans, word, v) ∈ wordEdits) (s : List Char) :
    ¬ HoldsWord word (replaceAll (wordPattern word v) s) := by
  rw [holdsWord_iff_noWord (constants_wholeWords word hword)]
  rintro ⟨front, read, back, ht, hread, hleft, hright⟩
  rw [← Option.or_none (o := front.getLast?)] at hleft
  exact replaceFrom_ne_constant hword hedit hread .inl hleft hright ht

/-! ### Texts without constants -/

/-- The text holds no boolean constant as a whole word. -/
def ConstantFree (s : List Char) : Prop := ∀ word ∈ constants, ¬ HoldsWord word s

theorem ConstantFree.edits {rules : List Rule} (hs : ConstantFree s)
    (h : Relation.ReflTransGen (EditsByOneOf rules) s t) : ConstantFree t := by
  induction h with
  | refl => exact hs
  | tail _ h ih =>
    obtain ⟨rule, -, h⟩ := h
    exact fun word hword ht => ih word hword (h.holdsWord hword ht)

theorem constantFree_booleans (s : List Char) : ConstantFree (booleans s) := by
  have htrue : ¬ HoldsWord "verdadero".toList
      (replaceAll (wordPattern "verdadero".toList "true".toList) s) :=
    not_holdsWord_replaceAll (by decide) (by decide) s
  intro word hword hbooleans
  obtain rfl | rfl : word = "verdadero".toList ∨ word = "falso".toList := by
    simpa [constants] using hword
  · -- the second pass does not bring the first constant back
    have hpass : Edits .booleans none _ (booleans s) :=
      replaceFrom_edits (wordPattern_edits (by decide)) none _
    exact htrue (hpass.holdsWord hword hbooleans)
  · exact not_holdsWord_replaceAll hword (by decide) _ hbooleans

theorem ConstantFree.booleans_eq (h : ConstantFree s) : booleans s = s := by
  rw [booleans, replaceAll_wordPattern_eq_self (h _ (by decide)),
    replaceAll_wordPattern_eq_self (h _ (by decide))]

theorem constantFree_applyRules (front back : List Rule) (s : List Char) :
    ConstantFree (applyRules (front ++ .booleans :: back) s) := by
  rw [applyRules, List.foldl_append, List.foldl_cons]
  exact (constantFree_booleans _).edits (applyRules_edits back _)

theorem constantFree_expression (s : List Char) : ConstantFree (expression s) :=
  constantFree_applyRules [.remainder, .conjunction, .disjunction, .negation]
    [.random, .power, .intrinsics] s

theorem constantFree_condition (s : List Char) : ConstantFree (condition s) :=
  constantFree_applyRules [] [.conjunction, .disjunction, .negation, .inequality, .equality,
    .remainder, .random, .power, .intrinsics] s

/-- **A second pass over the boolean constants changes nothing:** no expression and no condition
holds one, so that the right-hand side of an assignment is an expression as it is converted. -/
theorem booleans_final (s : List Char) :
    ConstantFree (expression s) ∧ ConstantFree (condition s) ∧
      booleans (expression s) = expression s ∧ booleans (condition s) = condition s ∧
      booleans (booleans s) = booleans s ∧
      ∀ names : Names, (Statement.assignment s names).1 =
        match Statement.assignmentSides? s with
        | none => "// ".toList ++ s
        | some (left, right) =>
          (if '[' ∈ left then [] else (names.introduce left).1) ++ left ++ " = ".toList ++
            expression right ++ ";".toList := by
  refine ⟨constantFree_expression s, constantFree_condition s,
    (constantFree_expression s).booleans_eq, (constantFree_condition s).booleans_eq,
    (constantFree_booleans s).booleans_eq, fun names => ?_⟩
  unfold Statement.assignment
  cases Statement.assignmentSides? s with
  | none => rfl
  | some sides =>
    obtain ⟨left, right⟩ := sides
    simp only [(constantFree_expression right).booleans_eq]
    split_ifs <;> rfl

end Expr

end Pseudocode
