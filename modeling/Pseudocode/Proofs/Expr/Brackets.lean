import Pseudocode.Proofs.Expr.Calls

/-!
# Brackets in expressions

All rules but one write the quotes and brackets that they read, and no others, so the brackets
outside literals stay what they are.  The rule for `azar` writes two parentheses for one, and finds
the one that closes the call by a scan that takes the place of the call for code.  That place may
lie in a literal.  The closing parenthesis then lies in a literal too, since two scans that differ
never meet, and the parentheses that are written count as little as those that were read.

* `Rule.marks_apply` : all rules but that for `azar` keep the quotes and brackets of a text.
* `KeepsNesting` : a text that can stand for another one, wherever that one stands.
* `KeepsNesting.call`, `KeepsNesting.written_call` : what is written for a call can stand for it, in
  code and in literals, and the call for what is written.
* `keepsNesting_applyRules`, `applyRules_keepsNesting` : so can what a text is converted to, and the
  text for it.
* `nested_expression_and_condition` : **the conversions keep texts well nested.**
-/

namespace Pseudocode

open Scan

namespace Expr

theorem negation_keepsMarks : negation.KeepsMarks := by
  intro before s n t ht
  unfold negation at ht
  split at ht
  · rename_i read rest hs
    split at ht
    · cases ht
      obtain ⟨⟨hread, rfl⟩, -⟩ := Text.splitWholeKey?_eq_some_iff.1 hs
      have hpos : 0 < read.length := by
        rw [← List.length_map Text.keyChar, hread]
        decide
      have hblanks : marks (rest.takeWhile Text.isBlank) = [] :=
        marks_of_isBlank (List.all_eq_true.1 List.all_takeWhile)
      have htaken : (read ++ rest).take (read.length + (rest.takeWhile Text.isBlank).length) =
          read ++ rest.takeWhile Text.isBlank := by
        rw [List.take_length_add_append, ← List.prefix_iff_eq_take.1 (List.takeWhile_prefix _)]
      refine ⟨by omega, ?_⟩
      rw [htaken, marks_append, hblanks, marks_of_map_keyChar (by decide) hread]
      rfl
    · cases ht
  · cases ht

theorem marks_equalitySign (lead : List Char) {rest t : List Char} {n : Nat}
    (h : equalitySign lead rest = some (n, t)) :
    0 < n ∧ marks t = marks ((lead ++ '=' :: rest).take n) := by
  have hsigns : marks "==".toList = marks ['='] := by decide
  cases rest with
  | nil =>
    cases h
    refine ⟨by omega, ?_⟩
    rw [List.take_of_length_le (by simp), marks_append, marks_append, hsigns]
  | cons c rest =>
    rw [equalitySign] at h
    split at h
    · cases h
    · cases h
      have htaken : (lead ++ '=' :: c :: rest).take (lead.length + 2) = lead ++ (['='] ++ [c]) := by
        rw [List.take_length_add_append]
        rfl
      refine ⟨by omega, ?_⟩
      rw [htaken, marks_append, marks_append, marks_append, marks_append, hsigns,
        List.append_assoc]

theorem equality_keepsMarks : equality.KeepsMarks := by
  intro before s n t ht
  unfold equality at ht
  split at ht
  · exact marks_equalitySign [] ht
  · split at ht
    · cases ht
    · exact marks_equalitySign _ ht
  · cases ht

theorem marks_memberFor (spelled : List Char) : marks (memberFor spelled) = [] := by
  obtain hnil | ⟨name, hmem⟩ := memberFor_cases spelled
  · rw [hnil]
    rfl
  · have hall : intrinsics.all (fun entry => marks entry.2 == []) = true := by decide
    simpa using List.all_eq_true.1 hall _ hmem

theorem marks_of_splitCall? {s name : List Char} {n : Nat} (h : splitCall? s = some (name, n)) :
    0 < n ∧ marks (memberFor name ++ "(".toList) = marks (s.take n) := by
  obtain ⟨blanks, back, rfl, hname, hblanks, rfl⟩ := eq_append_of_splitCall? h
  have hcall : name ++ (blanks ++ '(' :: back) = name ++ (blanks ++ ['(']) ++ back := by simp
  have hplain : marks name = [] :=
    marks_eq_nil_of_forall (p := Text.isNameChar) (by decide)
      (isKeyword_of_mem_intrinsics hname).isNameChar
  refine ⟨List.length_pos_iff.2 (by simp), ?_⟩
  rw [hcall, List.take_left, marks_append, marks_append, marks_append, marks_memberFor, hplain,
    marks_of_isBlank hblanks]
  rfl

theorem intrinsicCall_keepsMarks : intrinsicCall.KeepsMarks := by
  intro before s n t ht
  unfold intrinsicCall at ht
  split at ht
  · rename_i name n hcall
    cases ht
    exact marks_of_splitCall? hcall
  · split at ht
    · cases ht
    · rename_i c cs _
      split at ht
      · cases ht
      · obtain ⟨⟨name, n⟩, hcall, h⟩ := Option.map_eq_some_iff.1 ht
        cases h
        refine ⟨Nat.succ_pos n, ?_⟩
        rw [List.take_succ_cons, List.cons_append, ← List.singleton_append, marks_append,
          (marks_of_splitCall? hcall).2, ← marks_append]
        rfl

theorem marks_booleans (s : List Char) : marks (booleans s) = marks s := by
  unfold booleans
  rw [marks_replaceAll (Pattern.wordPattern_keepsMarks (by decide) (by decide) (by decide)),
    marks_replaceAll (Pattern.wordPattern_keepsMarks (by decide) (by decide) (by decide))]

/-- **All rules but that for `azar` keep the quotes and brackets of a text.** -/
theorem Rule.marks_apply {r : Rule} (hr : r ≠ .random) (s : List Char) :
    marks (r.apply s) = marks s := by
  have hcode : ∀ {p : Pattern}, p.KeepsMarks → marks (mapCode (replaceAll p) s) = marks s :=
    fun hp => marks_mapCode (marks_replaceAll hp) s
  cases r with
  | booleans => exact marks_booleans s
  | conjunction => exact hcode (Pattern.letterPattern_keepsMarks (by decide) (by decide))
  | disjunction => exact hcode (Pattern.letterPattern_keepsMarks (by decide) (by decide))
  | negation => exact hcode negation_keepsMarks
  | inequality => exact hcode (Pattern.textPattern_keepsMarks (by decide) (by decide))
  | equality => exact hcode equality_keepsMarks
  | remainder =>
    exact hcode (Pattern.wordPattern_keepsMarks (by decide) (by decide) (by decide))
  | random => exact absurd rfl hr
  | power => exact hcode (Pattern.textPattern_keepsMarks (by decide) (by decide))
  | intrinsics => exact hcode intrinsicCall_keepsMarks

/-! ### Texts that can stand for others -/

/-- The second text can stand for the first one: wherever a scan reaches them, it leaves both in the
same region, and what is open behind the first text is open behind the second one. -/
def KeepsNesting (s t : List Char) : Prop :=
  ∀ r : Region, r.afterAll t = r.afterAll s ∧
    ∀ opened left, Reads opened (bracketsFrom r s) left → Reads opened (bracketsFrom r t) left

namespace KeepsNesting

variable {s t u s' t' : List Char}

theorem refl (s : List Char) : KeepsNesting s s := fun _ => ⟨rfl, fun _ _ => id⟩

theorem of_marks (h : marks t = marks s) : KeepsNesting s t := fun r =>
  ⟨Region.afterAll_congr h r, fun _ _ hreads => by rwa [bracketsFrom_congr h]⟩

theorem trans (h : KeepsNesting s t) (h' : KeepsNesting t u) : KeepsNesting s u := fun r =>
  ⟨(h' r).1.trans (h r).1, fun opened left hreads =>
    (h' r).2 opened left ((h r).2 opened left hreads)⟩

theorem append (h : KeepsNesting s t) (h' : KeepsNesting s' t') :
    KeepsNesting (s ++ s') (t ++ t') := by
  intro r
  obtain ⟨hregion, hreads⟩ := h r
  obtain ⟨hregion', hreads'⟩ := h' (r.afterAll s)
  refine ⟨by rw [Region.afterAll_append, Region.afterAll_append, hregion, hregion'], ?_⟩
  intro opened left hboth
  rw [bracketsFrom_append] at hboth
  obtain ⟨mid, hfirst, hsecond⟩ := reads_append_iff.1 hboth
  rw [bracketsFrom_append, hregion]
  exact (hreads _ _ hfirst).append (hreads' _ _ hsecond)

theorem nested (h : KeepsNesting s t) (hs : Nested (brackets s)) : Nested (brackets t) :=
  nested_brackets_iff.2 ((h .code).2 [] [] (nested_brackets_iff.1 hs))

end KeepsNesting

/-! ### Calls of `azar` -/

variable {before : Option Char} {head inside inside' rest argument : List Char}

/-- In code: the argument of a call is well nested by itself, so it is so between two pairs of
parentheses as well. -/
theorem reads_call_code {opened left : List Bracket} (hhead : IsAzarHead before head)
    (hclose : closeParen? argument = some (inside, rest)) (hinside : KeepsNesting inside inside')
    (h : Reads opened (bracketsFrom .code (head ++ (inside ++ [')']))) left) :
    Reads opened
      (bracketsFrom .code ("Math.floor(Math.random() * (".toList ++ (inside' ++ "))".toList)))
      left := by
  obtain ⟨-, hcode, -⟩ := eq_append_of_call hclose
  rw [bracketsFrom_append, bracketsFrom_append, Region.afterAll_of_quoteFree hhead.quoteFree, hcode,
    bracketsFrom_congr hhead.marks_eq] at h
  obtain ⟨_, hopening, h⟩ := reads_append_iff.1 h
  obtain ⟨behind, hargument, hclosing⟩ := reads_append_iff.1 h
  cases hopening
  obtain rfl : behind = .round :: left := eq_cons_of_reads_closing hclosing
  obtain ⟨rfl, hframe⟩ := reads_of_closeParen? hclose hargument
  have hwritten : Reads left (bracketsFrom .code "Math.floor(Math.random() * (".toList)
      (.round :: .round :: left) := rfl
  have hclosed : Reads (.round :: .round :: left) (bracketsFrom .code "))".toList) left := rfl
  rw [bracketsFrom_append, bracketsFrom_append, Region.afterAll_of_quoteFree (by decide),
    (hinside .code).1, hcode]
  exact hwritten.append (((hinside .code).2 _ _ (hframe _)).append hclosed)

/-- The scan for the closing parenthesis ends in code, so one that starts in a literal does not. -/
theorem exists_afterAll_literal (hclose : closeParen? argument = some (inside, rest)) (q : Quote) :
    ∃ q', (Region.literal q).afterAll inside = .literal q' := by
  obtain ⟨-, hcode, -⟩ := eq_append_of_call hclose
  cases hq : (Region.literal q).afterAll inside with
  | code => cases Region.afterAll_injective inside (hq.trans hcode.symm)
  | literal q' => exact ⟨q', rfl⟩

/-- In a literal: the scan for the closing parenthesis ends in code, so the true one does not, and
neither the parentheses of the call nor those that are written count. -/
theorem reads_call_literal {q : Quote} {opened left : List Bracket} (hhead : IsAzarHead before head)
    (hclose : closeParen? argument = some (inside, rest)) (hinside : KeepsNesting inside inside')
    (h : Reads opened (bracketsFrom (.literal q) (head ++ (inside ++ [')']))) left) :
    Reads opened
      (bracketsFrom (.literal q)
        ("Math.floor(Math.random() * (".toList ++ (inside' ++ "))".toList))) left := by
  obtain ⟨hregion, hreads⟩ := hinside (.literal q)
  obtain ⟨q', hq'⟩ := exists_afterAll_literal hclose q
  rw [bracketsFrom_literal_around hhead.quoteFree hq' (by decide)] at h
  rw [bracketsFrom_literal_around (by decide) (hregion.trans hq') (by decide)]
  exact hreads _ _ h

/-- **What is written for a call can stand for it,** wherever it stands. -/
theorem KeepsNesting.call (hhead : IsAzarHead before head)
    (hclose : closeParen? argument = some (inside, rest)) (hinside : KeepsNesting inside inside') :
    KeepsNesting (head ++ (inside ++ [')']))
      ("Math.floor(Math.random() * (".toList ++ (inside' ++ "))".toList)) := by
  intro r
  constructor
  · simp only [Region.afterAll_append, Region.afterAll_of_quoteFree hhead.quoteFree, (hinside r).1,
      Region.afterAll_of_quoteFree (by decide : QuoteFree [')']),
      Region.afterAll_of_quoteFree (by decide : QuoteFree "Math.floor(Math.random() * (".toList),
      Region.afterAll_of_quoteFree (by decide : QuoteFree "))".toList)]
  · intro opened left h
    cases r with
    | code => exact reads_call_code hhead hclose hinside h
    | literal q => exact reads_call_literal hhead hclose hinside h

/-- In code the call can stand for what is written for it as well: a text that closes no parenthesis
around it closes the second one as little as the first one. -/
theorem reads_of_written_call {opened left : List Bracket} (hhead : IsAzarHead before head)
    (hclose : closeParen? argument = some (inside, rest)) (hinside : KeepsNesting inside' inside)
    (h : Reads opened
      (bracketsFrom .code ("Math.floor(Math.random() * (".toList ++ (inside' ++ "))".toList)))
      left) :
    Reads opened (bracketsFrom .code (head ++ (inside ++ [')']))) left := by
  obtain ⟨-, hcode, -⟩ := eq_append_of_call hclose
  rw [bracketsFrom_append, bracketsFrom_append, Region.afterAll_of_quoteFree (by decide),
    ← (hinside .code).1, hcode] at h
  obtain ⟨_, hopening, h⟩ := reads_append_iff.1 h
  obtain ⟨behind, hargument, hclosing⟩ := reads_append_iff.1 h
  cases hopening
  have hboth : Reads behind ([.closing .round] ++ [.closing .round]) left := hclosing
  obtain ⟨mid, hfirst, hsecond⟩ := reads_append_iff.1 hboth
  obtain rfl : behind = .round :: mid := eq_cons_of_reads_closing hfirst
  obtain rfl : mid = .round :: left := eq_cons_of_reads_closing hsecond
  obtain ⟨hleft, hframe⟩ := reads_of_closeParen? hclose ((hinside .code).2 _ _ hargument)
  obtain rfl : left = opened := (List.cons.inj hleft).2
  have hopened : Reads left (bracketsFrom .code ['(']) (.round :: left) := rfl
  have hclosed : Reads (.round :: left) (bracketsFrom .code [')']) left := rfl
  rw [bracketsFrom_append, bracketsFrom_append, Region.afterAll_of_quoteFree hhead.quoteFree, hcode,
    bracketsFrom_congr hhead.marks_eq]
  exact hopened.append ((hframe _).append hclosed)

theorem KeepsNesting.written_call (hhead : IsAzarHead before head)
    (hclose : closeParen? argument = some (inside, rest)) (hinside : KeepsNesting inside' inside) :
    KeepsNesting ("Math.floor(Math.random() * (".toList ++ (inside' ++ "))".toList))
      (head ++ (inside ++ [')'])) := by
  intro r
  constructor
  · simp only [Region.afterAll_append, Region.afterAll_of_quoteFree hhead.quoteFree, (hinside r).1,
      Region.afterAll_of_quoteFree (by decide : QuoteFree [')']),
      Region.afterAll_of_quoteFree (by decide : QuoteFree "Math.floor(Math.random() * (".toList),
      Region.afterAll_of_quoteFree (by decide : QuoteFree "))".toList)]
  · intro opened left h
    cases r with
    | code => exact reads_of_written_call hhead hclose hinside h
    | literal q =>
      obtain ⟨hregion, hreads⟩ := hinside (.literal q)
      obtain ⟨q', hq'⟩ := exists_afterAll_literal hclose q
      rw [bracketsFrom_literal_around (by decide) (hregion.symm.trans hq') (by decide)] at h
      rw [bracketsFrom_literal_around hhead.quoteFree hq' (by decide)]
      exact hreads _ _ h

theorem keepsNesting_random (s : List Char) : KeepsNesting s (random s) := by
  fun_induction random s with
  | case1 s => exact .refl s
  | case2 s front argument hs hclose => exact .refl s
  | case3 s front argument hs inside rest hclose _ _ _ ihInside ihRest =>
    obtain ⟨head, hhead, rfl⟩ := exists_head_of_breakAzar? hs
    have hinside : KeepsNesting inside (random (Text.trim inside)) :=
      (KeepsNesting.of_marks (marks_trim inside)).trans ihInside
    have hcall := (KeepsNesting.refl front).append
      ((KeepsNesting.call hhead hclose hinside).append ihRest)
    rw [(eq_append_of_call hclose).1]
    simpa using hcall

theorem random_keepsNesting (s : List Char) : KeepsNesting (random s) s := by
  fun_induction random s with
  | case1 s => exact .refl s
  | case2 s front argument hs hclose => exact .refl s
  | case3 s front argument hs inside rest hclose _ _ _ ihInside ihRest =>
    obtain ⟨head, hhead, rfl⟩ := exists_head_of_breakAzar? hs
    have hinside : KeepsNesting (random (Text.trim inside)) inside :=
      ihInside.trans (KeepsNesting.of_marks (marks_trim inside).symm)
    have hcall := (KeepsNesting.refl front).append
      ((KeepsNesting.written_call hhead hclose hinside).append ihRest)
    rw [(eq_append_of_call hclose).1]
    simpa using hcall

/-! ### Conversions -/

theorem Rule.keepsNesting_apply (r : Rule) (s : List Char) : KeepsNesting s (r.apply s) := by
  by_cases hr : r = .random
  · subst hr
    exact keepsNesting_random s
  · exact .of_marks (r.marks_apply hr s)

theorem keepsNesting_applyRules (rules : List Rule) (s : List Char) :
    KeepsNesting s (applyRules rules s) := by
  induction rules generalizing s with
  | nil => exact .refl s
  | cons r rules ih => exact (r.keepsNesting_apply s).trans (ih _)

theorem Rule.apply_keepsNesting (r : Rule) (s : List Char) : KeepsNesting (r.apply s) s := by
  by_cases hr : r = .random
  · subst hr
    exact random_keepsNesting s
  · exact .of_marks (r.marks_apply hr s).symm

theorem applyRules_keepsNesting (rules : List Rule) (s : List Char) :
    KeepsNesting (applyRules rules s) s := by
  induction rules generalizing s with
  | nil => exact .refl s
  | cons r rules ih => exact (ih _).trans (r.apply_keepsNesting s)

theorem reads_of_reads_expression {s : List Char} {opened left : List Bracket}
    (h : Reads opened (brackets (expression s)) left) : Reads opened (brackets s) left :=
  (applyRules_keepsNesting expressionRules s .code).2 opened left h

theorem afterAll_expression (r : Region) (s : List Char) :
    r.afterAll (expression s) = r.afterAll s :=
  (keepsNesting_applyRules expressionRules s r).1

/-- **The conversions keep texts well nested:** if every parenthesis, square bracket and brace
outside the literals of a text is closed by one of its own shape, this holds of what the text is
converted to. -/
theorem nested_expression_and_condition (s : List Char) (h : Nested (brackets s)) :
    Nested (brackets (expression s)) ∧ Nested (brackets (condition s)) :=
  ⟨(keepsNesting_applyRules expressionRules s).nested h,
    (keepsNesting_applyRules conditionRules s).nested h⟩

/-- Calls inside calls, a call with an unbalanced literal, a call that starts in a literal and ends
in the next one, and one that starts in a literal and has no end. -/
theorem nested_with_calls_in_literals :
    let s := ("\x7b[azar( rc(azar(2)) + azar(\")\") )]\x7d + " ++
      "\"azar( (\" + (x + \" )) \") + 'azar('").toList
    Nested (brackets s) ∧ Nested (brackets (expression s)) ∧ Nested (brackets (condition s)) := by
  intro s
  have hs : Nested (brackets s) := by decide +revert
  exact ⟨hs, nested_expression_and_condition s hs⟩

end Expr

end Pseudocode
