import Pseudocode.Proofs.Scan.Literals

/-!
# Places in code

A text is searched for in code only: what stands inside a literal is passed over.

* `OnlyInLiterals` : a text stands nowhere in code.
* `breakCode?_eq_none_iff` : it is not found exactly in that case.
* `breakCode?_append_cons` : **a text is found at its first place in code,** also where that place
  has been put behind the end of another text.
* `somewhereFrom_cons` : what holds at some place of a text, character by character.
-/

namespace Pseudocode

namespace Scan

variable {α : Type} [Symbol α]

/-- Wherever `sub` stands in the text, it starts inside a literal. -/
def OnlyInLiterals (sub s : List α) : Prop :=
  ∀ front rest, s = front ++ (sub ++ rest) → unclosed front = true

theorem unclosed_eq_true_iff {s : List α} :
    unclosed s = true ↔ Region.code.afterAll s ≠ .code := by
  rw [unclosed_eq]
  exact bne_iff_ne

theorem unclosed_eq_false_iff {s : List α} :
    unclosed s = false ↔ Region.code.afterAll s = .code := by
  rw [unclosed_eq]
  exact bne_eq_false_iff_eq

theorem unclosed_append_of_quoteFree {s : List α} (hs : QuoteFree s) (t : List α) :
    unclosed (s ++ t) = unclosed t := by
  rw [unclosed_eq, Region.afterAll_append, Region.afterAll_of_quoteFree hs, unclosed_eq]

theorem OnlyInLiterals.left {sub s t : List α} (h : OnlyInLiterals sub (s ++ t)) :
    OnlyInLiterals sub s :=
  fun front rest hs => h front (rest ++ t) (by simp only [hs, List.append_assoc])

/-- A text without quotes in front of another one opens no literal. -/
theorem OnlyInLiterals.right {sub s t : List α} (hs : QuoteFree s)
    (h : OnlyInLiterals sub (s ++ t)) : OnlyInLiterals sub t := by
  intro front rest ht
  rw [← unclosed_append_of_quoteFree hs front]
  exact h (s ++ front) rest (by rw [ht, List.append_assoc])

omit [Symbol α] in
theorem isPrefix_of_notMem {x : α} {sub s t : List α} (hx : x ∉ sub) (h : sub <+: s ++ x :: t) :
    sub <+: s := by
  by_cases hlen : sub.length ≤ s.length
  · exact List.prefix_of_prefix_length_le h (List.prefix_append s _) hlen
  · -- a longer text would reach over `x`
    have hover : s ++ [x] <+: sub := by
      refine List.prefix_of_prefix_length_le ⟨t, by simp⟩ h ?_
      rw [List.length_append, List.length_singleton]
      omega
    exact absurd (hover.subset (by simp)) hx

/-- At some place of the text, `P` holds of the region there, of the symbol before it and of the
rest of the text.  The text follows `before` in the given region. -/
def SomewhereFrom (P : Region → Option α → List α → Prop) (r : Region) (before : Option α)
    (s : List α) : Prop :=
  ∃ front rest, s = front ++ rest ∧ rest ≠ [] ∧ P (r.afterAll front) (front.getLast?.or before) rest

@[simp] theorem not_somewhereFrom_nil (P : Region → Option α → List α → Prop) (r : Region)
    (before : Option α) : ¬ SomewhereFrom P r before [] := by
  rintro ⟨front, rest, hs, hne, -⟩
  exact hne (List.append_eq_nil_iff.1 hs.symm).2

theorem somewhereFrom_cons {P : Region → Option α → List α → Prop} {r : Region}
    {before : Option α} {c : α} {cs : List α} :
    SomewhereFrom P r before (c :: cs) ↔
      P r before (c :: cs) ∨ SomewhereFrom P (r.after (role c)) (some c) cs := by
  constructor
  · rintro ⟨front, rest, hs, hne, hP⟩
    cases front with
    | nil => exact .inl (by rwa [hs])
    | cons d front =>
      obtain ⟨rfl, rfl⟩ := List.cons_eq_cons.1 hs
      rw [Text.getLast?_cons_or] at hP
      exact .inr ⟨front, rest, rfl, hne, hP⟩
  · rintro (hP | ⟨front, rest, rfl, hne, hP⟩)
    · exact ⟨[], c :: cs, rfl, List.cons_ne_nil _ _, hP⟩
    · rw [← Text.getLast?_cons_or c front before] at hP
      exact ⟨c :: front, rest, rfl, hne, hP⟩

instance decidableSomewhereFrom (P : Region → Option α → List α → Prop)
    [∀ r before s, Decidable (P r before s)] :
    (r : Region) → (before : Option α) → (s : List α) → Decidable (SomewhereFrom P r before s)
  | r, before, [] => isFalse (not_somewhereFrom_nil P r before)
  | r, _, c :: cs =>
    haveI := decidableSomewhereFrom P (r.after (role c)) (some c) cs
    decidable_of_iff _ somewhereFrom_cons.symm

/-- Places at which the property fails can be passed over, in a text without quotes. -/
theorem somewhereFrom_append {P : Region → Option α → List α → Prop} {r : Region}
    {before : Option α} {x s : List α} (hquote : QuoteFree x)
    (hx : ∀ front c back, x = front ++ c :: back →
      ¬ P r (front.getLast?.or before) (c :: (back ++ s))) :
    SomewhereFrom P r before (x ++ s) ↔ SomewhereFrom P r (x.getLast?.or before) s := by
  induction x generalizing before with
  | nil => rfl
  | cons c x ih =>
    obtain ⟨hc, hquote⟩ := List.forall_mem_cons.1 hquote
    have hfront : ¬ P r before (c :: (x ++ s)) := hx [] c x rfl
    have hrest := @ih (some c) hquote fun front d back heq => by
      rw [← Text.getLast?_cons_or c front before]
      exact hx (c :: front) d back (by rw [heq, List.cons_append])
    rw [List.cons_append, somewhereFrom_cons, Region.after_of_isQuote_eq_false hc, hrest,
      Text.getLast?_cons_or]
    exact or_iff_right hfront

variable [BEq α] [LawfulBEq α]

/-- In a scan from the given region, `sub` starts nowhere in code. -/
def MissesCode (r : Region) (sub s : List α) : Prop :=
  ∀ front rest, s = front ++ (sub ++ rest) → r.afterAll front ≠ .code

omit [BEq α] [LawfulBEq α] in
theorem MissesCode.tail {r : Region} {sub cs : List α} {c : α} (h : MissesCode r sub (c :: cs)) :
    MissesCode (r.after (role c)) sub cs :=
  fun front rest hcs => h (c :: front) rest (by rw [hcs, List.cons_append])

theorem MissesCode.not_found {r : Region} {sub s : List α} {c : α} (h : MissesCode r sub (c :: s))
    (cs : List α) (hstarts : sub <+: c :: cs → sub <+: c :: s) :
    (!r.holds (role c) && sub.isPrefixOf (c :: cs)) = false := by
  refine Bool.eq_false_iff.2 fun hfound => ?_
  rw [Bool.and_eq_true, List.isPrefixOf_iff_prefix] at hfound
  obtain ⟨rest, hrest⟩ := hstarts hfound.2
  have hregion : r ≠ .code := h [] rest hrest.symm
  cases r with
  | code => exact hregion rfl
  | literal q => cases hfound.1

theorem breakCodeFrom_eq_none {r : Region} {sub s : List α} (h : MissesCode r sub s) :
    breakCodeFrom sub r s = none := by
  induction s generalizing r with
  | nil => rfl
  | cons c cs ih => rw [breakCodeFrom, h.not_found cs id, ih h.tail]; rfl

theorem breakCode?_eq_none {sub s : List α} (h : OnlyInLiterals sub s) :
    breakCode? sub s = none := by
  unfold breakCode?
  split
  · rfl
  · exact breakCodeFrom_eq_none fun front rest hs => unclosed_eq_true_iff.1 (h front rest hs)

theorem breakCodeFrom_self {sub : List α} (hsub : sub ≠ []) (hquote : QuoteFree sub)
    (rest : List α) : breakCodeFrom sub .code (sub ++ rest) = some ([], sub ++ rest) := by
  cases sub with
  | nil => exact absurd rfl hsub
  | cons c cs =>
    have hstarts : (c :: cs).isPrefixOf (c :: (cs ++ rest)) = true :=
      List.isPrefixOf_iff_prefix.2 ⟨rest, rfl⟩
    rw [List.cons_append, breakCodeFrom, hstarts, Region.holds, hquote c List.mem_cons_self]
    rfl

/-- What stands somewhere in code is found, there or before. -/
theorem breakCodeFrom_ne_none {r : Region} {sub front : List α} (hsub : sub ≠ [])
    (hquote : QuoteFree sub) (hcode : r.afterAll front = .code) (rest : List α) :
    breakCodeFrom sub r (front ++ (sub ++ rest)) ≠ none := by
  induction front generalizing r with
  | nil =>
    obtain rfl : r = .code := hcode
    rw [List.nil_append, breakCodeFrom_self hsub hquote]
    exact Option.some_ne_none _
  | cons c cs ih =>
    rw [List.cons_append, breakCodeFrom]
    split
    · exact Option.some_ne_none _
    · rw [ne_eq, Option.map_eq_none_iff]
      exact ih hcode

/-- **A text is not found exactly if it stands in literals only.** -/
theorem breakCode?_eq_none_iff {sub s : List α} (hsub : sub ≠ []) (hquote : QuoteFree sub) :
    breakCode? sub s = none ↔ OnlyInLiterals sub s := by
  refine ⟨fun hnone front rest hs => ?_, breakCode?_eq_none⟩
  rw [breakCode?, if_neg (by simpa using hsub), hs] at hnone
  exact unclosed_eq_true_iff.2 fun hcode => breakCodeFrom_ne_none hsub hquote hcode rest hnone

theorem breakCodeFrom_append_cons {r : Region} {sub s : List α} {x : α} (hsub : sub ≠ [])
    (hquote : QuoteFree sub) (hx : x ∉ sub)
    (hxquote : (role x).isQuote = false) (hmisses : MissesCode r sub s)
    (hcode : r.afterAll s = .code) (rest : List α) :
    breakCodeFrom sub r (s ++ x :: (sub ++ rest)) = some (s ++ [x], sub ++ rest) := by
  induction s generalizing r with
  | nil =>
    obtain rfl : r = .code := hcode
    -- the search passes over `x` and finds the text behind it
    have hskip : (!Region.code.holds (role x) && sub.isPrefixOf (x :: (sub ++ rest))) = false := by
      rw [Bool.and_eq_false_iff]
      refine .inr (Bool.eq_false_iff.2 fun hstarts => hsub ?_)
      exact List.prefix_nil.1 (isPrefix_of_notMem hx (List.isPrefixOf_iff_prefix.1 hstarts))
    rw [List.nil_append, breakCodeFrom, hskip, Region.after_of_isQuote_eq_false hxquote,
      breakCodeFrom_self hsub hquote]
    rfl
  | cons c cs ih =>
    have hskip := hmisses.not_found (cs ++ x :: (sub ++ rest)) fun hstarts =>
      isPrefix_of_notMem (s := c :: cs) hx hstarts
    rw [List.cons_append, breakCodeFrom, hskip, ih hmisses.tail hcode]
    rfl

/-- **A text is found at its first place in code.**  Behind a text that holds it in literals only
and ends in code, with one symbol between them that it does not hold, it is found at once. -/
theorem breakCode?_append_cons {sub s : List α} {x : α} (hsub : sub ≠ [])
    (hquote : QuoteFree sub) (hx : x ∉ sub)
    (hxquote : (role x).isQuote = false) (hlit : OnlyInLiterals sub s)
    (hclosed : unclosed s = false) (rest : List α) :
    breakCode? sub (s ++ x :: (sub ++ rest)) = some (s ++ [x], sub ++ rest) := by
  rw [breakCode?, if_neg (by simpa using hsub)]
  exact breakCodeFrom_append_cons hsub hquote hx hxquote
    (fun front rest hs => unclosed_eq_true_iff.1 (hlit front rest hs))
    (unclosed_eq_false_iff.1 hclosed) rest

end Scan

end Pseudocode
