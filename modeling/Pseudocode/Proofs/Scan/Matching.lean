import Pseudocode.Proofs.Scan.Paren

/-!
# The parenthesis that closes another one

A text with its literals blanked out shows the parentheses that count.  The parenthesis that closes
the one at an offset is found in the text from there on: it is not blanked out, and what is shown
between the two is well nested.  There is at most one such parenthesis, and a search that counts
depth and skips literals finds it.

* `masked` : a text with its literals blanked out.
* `masked_eq` : a scan shows the symbols that the segments of the text show.
* `OpensAt`, `ClosesAt` : the two parentheses of a pair.
* `closesAt_iff` : a pair of parentheses is what `closeParen?` cuts out.
* `matchParen?_exact` : **the parenthesis that closes another one is found, and no other.**
-/

namespace Pseudocode

namespace Scan

variable {α : Type} [Symbol α]

/-! ### Blanked literals -/

/-- The symbols of a segment, those of a literal blanked out. -/
def Segment.masked : Segment α → List (Option α)
  | .code run => run.map some
  | .literal text => text.map fun _ => none

/-- The text with the symbols of its literals blanked out, each in its place. -/
def masked (s : List α) : List (Option α) := (segments s).flatMap Segment.masked

/-- The parentheses that are not blanked out, in order. -/
def shownParens (t : List (Option α)) : List Role := (t.filterMap (·.map role)).filter Role.isParen

/-- What a scan that starts in the given region shows of a text. -/
def maskedFrom : Region → List α → List (Option α)
  | _, [] => []
  | r, c :: cs => (if r.holds (role c) then none else some c) :: maskedFrom (r.after (role c)) cs

/-- What is shown of the symbols that are held while a segment is read. -/
def maskedHeld (held : List α) : Region → List (Option α)
  | .code => held.reverse.map some
  | .literal _ => held.reverse.map fun _ => none

omit [Symbol α] in
theorem maskedHeld_cons (c : α) (held : List α) (r : Region) :
    maskedHeld (c :: held) r = maskedHeld held r ++ [if r = .code then some c else none] := by
  cases r with
  | code => simp [maskedHeld]
  | literal q => simp [maskedHeld]

theorem flatMap_masked_segmentsFrom (r : Region) (held s : List α) :
    (segmentsFrom r held s).flatMap Segment.masked = maskedHeld held r ++ maskedFrom r s := by
  have hempty : Segment.masked (.code ([] : List α)) = [] := rfl
  induction s generalizing r held with
  | nil =>
    cases r with
    | code =>
      rw [segmentsFrom, flatMap_consRun _ hempty]
      simp [Segment.masked, maskedHeld, maskedFrom]
    | literal q => simp [segmentsFrom, Segment.masked, maskedHeld, maskedFrom]
  | cons c cs ih =>
    cases r with
    | code =>
      cases hc : (role c).isQuote with
      | true =>
        obtain ⟨q, hq⟩ := Role.isQuote_iff.1 hc
        rw [segmentsFrom_code_quote hq, flatMap_consRun _ hempty, ih, maskedFrom, hq]
        rfl
      | false =>
        rw [segmentsFrom_code_plain hc, ih, maskedHeld_cons, maskedFrom,
          Region.after_of_isQuote_eq_false hc, Region.holds, hc]
        simp
    | literal q =>
      by_cases hc : role c = .quote q
      · rw [segmentsFrom_literal_close hc, List.flatMap_cons, ih, maskedFrom, hc, Region.after,
          if_pos rfl]
        simp [Segment.masked, maskedHeld, Region.holds]
      · rw [segmentsFrom_literal_inner hc, ih, maskedHeld_cons, maskedFrom,
          Region.literal_after_of_ne hc]
        simp [Region.holds]

/-- **A scan shows the symbols that the segments of a text show.** -/
theorem masked_eq (s : List α) : masked s = maskedFrom .code s :=
  flatMap_masked_segmentsFrom .code [] s

theorem maskedFrom_append (r : Region) (s t : List α) :
    maskedFrom r (s ++ t) = maskedFrom r s ++ maskedFrom (r.afterAll s) t := by
  induction s generalizing r with
  | nil => rfl
  | cons c cs ih => rw [List.cons_append, maskedFrom, maskedFrom, ih, Region.afterAll_cons]; rfl

theorem length_maskedFrom (r : Region) (s : List α) : (maskedFrom r s).length = s.length := by
  induction s generalizing r with
  | nil => rfl
  | cons c cs ih => rw [maskedFrom, List.length_cons, List.length_cons, ih]

theorem Role.isBracket_of_isParen {x : Role} (h : x.isParen = true) : x.isBracket = true := by
  simp only [Role.isParen, Bool.or_eq_true, decide_eq_true_eq] at h
  rcases h with rfl | rfl <;> rfl

theorem shownParens_maskedFrom (r : Region) (s : List α) :
    shownParens (maskedFrom r s) = parensFrom r s := by
  induction s generalizing r with
  | nil => rfl
  | cons c cs ih =>
    rw [parensFrom_cons, ← ih, maskedFrom, bracketOf]
    cases hheld : r.holds (role c) with
    | true => rfl
    | false =>
      by_cases hparen : (role c).isParen = true
      · simp [shownParens, hparen, Role.isBracket_of_isParen hparen]
      · -- other brackets are left out on both sides
        cases hbracket : (role c).isBracket <;> simp [shownParens, hparen]

theorem maskedFrom_getElem?_iff {r : Region} {s : List α} {n : Nat} {c : α} :
    (maskedFrom r s)[n]? = some (some c) ↔ ∃ front back, s = front ++ c :: back ∧
      front.length = n ∧ (r.afterAll front).holds (role c) = false := by
  constructor
  · intro h
    have hlt : n < s.length := by
      rw [← length_maskedFrom r s]
      exact (List.getElem?_eq_some_iff.1 h).1
    have hs : s = s.take n ++ s[n] :: s.drop (n + 1) := by simp
    have hlength : (s.take n).length = n := List.length_take_of_le hlt.le
    rw [hs, maskedFrom_append, maskedFrom, List.getElem?_append_right
      (by rw [length_maskedFrom, hlength]), length_maskedFrom, hlength, Nat.sub_self,
      List.getElem?_cons_zero, Option.some.injEq] at h
    split at h
    · cases h
    · rename_i hheld
      cases h
      exact ⟨_, _, hs, hlength, by simpa using hheld⟩
  · rintro ⟨front, back, rfl, rfl, hheld⟩
    rw [maskedFrom_append, maskedFrom, hheld, List.getElem?_append_right
      (by rw [length_maskedFrom]), length_maskedFrom, Nat.sub_self]
    rfl

/-! ### Pairs of parentheses -/

/-- An opening parenthesis stands at the offset. -/
def OpensAt (s : List α) (start : Int) : Prop :=
  ∃ (i : Nat) (c : α), start = i ∧ s[i]? = some c ∧ role c = .opening .round

/-- In the text from `start` on, a closing parenthesis stands at `finish` outside literals, and the
parentheses outside literals strictly between the two places are well nested. -/
structure ClosesAt (s : List α) (start finish : Nat) : Prop where
  /-- The second place does not come before the first one. -/
  le : start ≤ finish
  /-- The parenthesis at the second place belongs to no literal. -/
  closing : ∃ c, (masked (s.drop start))[finish - start]? = some (some c) ∧
    role c = .closing .round
  /-- What is shown between the two places. -/
  nested : Nested (shownParens (((masked (s.drop start)).take (finish - start)).drop 1))

variable {s rest : List α} {c : α} {start finish : Nat}

/-- A closing parenthesis is outside literals where a scan stands in code. -/
theorem holds_closing_eq_false_iff {r : Region} {b : Bracket} :
    r.holds (.closing b) = false ↔ r = .code := by
  cases r with
  | code => exact iff_of_true rfl rfl
  | literal q => exact iff_of_false Bool.noConfusion Region.noConfusion

/-- **A pair of parentheses is what is cut out of the text** behind the first one. -/
theorem closesAt_iff (hs : s.drop start = c :: rest) (hc : role c = .opening .round) :
    ClosesAt s start finish ↔
      ∃ inside back, closeParen? rest = some (inside, back) ∧
        finish = start + 1 + inside.length := by
  have hmasked : masked (s.drop start) = some c :: maskedFrom .code rest := by
    rw [hs, masked_eq, maskedFrom, hc]
    rfl
  constructor
  · rintro ⟨hle, ⟨d, hd, hrole⟩, hnested⟩
    rw [hmasked] at hd hnested
    -- the two places differ, since the first parenthesis opens and the second one closes
    obtain ⟨n, hn⟩ : ∃ n, finish - start = n + 1 := by
      refine Nat.exists_eq_succ_of_ne_zero fun hzero => ?_
      rw [hzero] at hd
      cases hd
      cases hc.symm.trans hrole
    rw [hn, List.getElem?_cons_succ] at hd
    obtain ⟨inside, back, rfl, rfl, hheld⟩ := maskedFrom_getElem?_iff.1 hd
    rw [hrole, holds_closing_eq_false_iff] at hheld
    rw [hn, List.take_succ_cons, List.drop_succ_cons, List.drop_zero, maskedFrom_append,
      List.take_left' (length_maskedFrom .code inside), shownParens_maskedFrom] at hnested
    exact ⟨inside, back, closeParen?_eq_some_iff.2 ⟨d, hrole, rfl, hheld, hnested⟩, by omega⟩
  · rintro ⟨inside, back, hclose, rfl⟩
    obtain ⟨d, hd, rfl, hcode, hnested⟩ := closeParen?_eq_some_iff.1 hclose
    have hn : start + 1 + inside.length - start = inside.length + 1 := by omega
    refine ⟨by omega, ⟨d, ?_, hd⟩, ?_⟩
    · rw [hmasked, hn, List.getElem?_cons_succ]
      refine maskedFrom_getElem?_iff.2 ⟨inside, back, rfl, rfl, ?_⟩
      rw [hd, hcode]
      rfl
    · rw [hmasked, hn, List.take_succ_cons, List.drop_succ_cons, List.drop_zero, maskedFrom_append,
        List.take_left' (length_maskedFrom .code inside), shownParens_maskedFrom]
      exact hnested

theorem matchParen?_eq_none_of_not_opensAt {start : Int} (h : ¬ OpensAt s start) :
    matchParen? s start = none := by
  unfold matchParen?
  split
  · rfl
  · rename_i hstart
    split
    · rfl
    · rename_i c rest hs
      refine if_neg fun hc => h ⟨start.toNat, c, by omega, ?_, hc⟩
      rw [← List.head?_drop, hs, List.head?_cons]

theorem matchParen?_of_opensAt {start : Int} (h : OpensAt s start) :
    matchParen? s start = some finish ↔ ClosesAt s start.toNat finish := by
  obtain ⟨i, c, rfl, hi, hc⟩ := h
  have hs : s.drop i = c :: s.drop (i + 1) := by
    obtain ⟨hlt, rfl⟩ := List.getElem?_eq_some_iff.1 hi
    exact List.drop_eq_getElem_cons hlt
  rw [Int.toNat_natCast, closesAt_iff hs hc, matchParen?, if_neg (by omega), Int.toNat_natCast, hs]
  simp only [hc, if_true, Option.map_eq_some_iff, Prod.exists]
  exact exists₂_congr fun inside back => and_congr_right fun _ => eq_comm

/-- **The parenthesis that closes another one is found, and no other.**  The search succeeds exactly
if a parenthesis opens at the offset and some parenthesis closes it, and it gives the offset of that
one, which is the only one and comes after the first. -/
theorem matchParen?_exact (s : List α) (start : Int) :
    (∀ finish, matchParen? s start = some finish ↔
      OpensAt s start ∧ ClosesAt s start.toNat finish) ∧
    (matchParen? s start = none ↔
      ¬ OpensAt s start ∨ ¬ ∃ finish, ClosesAt s start.toNat finish) ∧
    ∀ finish, OpensAt s start → ClosesAt s start.toNat finish →
      start < finish ∧ ∀ other, ClosesAt s start.toNat other → other = finish := by
  have hsome (finish : Nat) : matchParen? s start = some finish ↔
      OpensAt s start ∧ ClosesAt s start.toNat finish := by
    by_cases hopen : OpensAt s start
    · rw [matchParen?_of_opensAt hopen, and_iff_right hopen]
    · simp [matchParen?_eq_none_of_not_opensAt hopen, hopen]
  refine ⟨hsome, ?_, ?_⟩
  · rw [Option.eq_none_iff_forall_ne_some, ← not_and_or, ← exists_and_left, not_exists]
    exact forall_congr' fun finish => not_congr (hsome finish)
  · intro finish hopen hclose
    refine ⟨?_, fun other hother => ?_⟩
    · obtain ⟨i, c, rfl, hi, hc⟩ := hopen
      obtain ⟨hlt, rfl⟩ := List.getElem?_eq_some_iff.1 hi
      obtain ⟨inside, back, -, rfl⟩ :=
        (closesAt_iff (List.drop_eq_getElem_cons hlt) hc).1 hclose
      omega
    · have hfound := (hsome finish).2 ⟨hopen, hclose⟩
      exact Option.some.inj (((hsome other).2 ⟨hopen, hother⟩).symm.trans hfound)

/-- A parenthesis in a literal and an inner pair are passed over, and what follows is left alone. -/
theorem matchParen?_passes_over :
    let s := "azar(\")\" + (n)) + (\"".toList
    (OpensAt s 4 ∧ ClosesAt s 4 14) ∧ matchParen? s 4 = some 14 ∧
      ∀ other, ClosesAt s 4 other → other = 14 := by
  intro s
  have hlast : (masked (s.drop 4))[10]? = some (some ')') := by decide +revert
  have hshown : shownParens (((masked (s.drop 4)).take 10).drop 1) =
      [.opening .round, .closing .round] := by decide +revert
  have hopen : OpensAt s 4 := ⟨4, '(', rfl, rfl, rfl⟩
  have hnested : Nested [.opening .round, .closing .round] := Nested.nil.pair .round .nil
  have hclose : ClosesAt s 4 14 := ⟨by decide, ⟨')', hlast, rfl⟩, hshown ▸ hnested⟩
  obtain ⟨hsome, -, honly⟩ := matchParen?_exact s 4
  exact ⟨⟨hopen, hclose⟩, (hsome 14).2 ⟨hopen, hclose⟩, (honly 14 hopen hclose).2⟩

end Scan

end Pseudocode
