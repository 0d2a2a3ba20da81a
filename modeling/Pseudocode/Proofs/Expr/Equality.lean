import Pseudocode.Expr.Convert
import Pseudocode.Proofs.Pattern
import Pseudocode.Proofs.Scan.Segmented

/-!
# Lone equality signs

An equality sign is lone if it stands in code and is no part of `<=`, `>=`, `!=` or `==`.  An
occurrence of the pattern takes the neighbours of the sign with it, so that two lone signs compete
for a single character that stands between them: the second one is then passed over.

* `doubleLone` : the text with all its lone signs doubled.
* `Doubling` : a text in which lone signs have been doubled, and nothing else has changed.
* `Crowded` : two lone signs stand next to the same character.
* `equality_apply_eq_doubleApart` : what the rule does, as a scan of the whole text.
* `equality_doubles_lone_signs` : **the rule doubles all lone signs exactly if none are crowded.**
-/

namespace Pseudocode

namespace Expr

open Scan

/-! ### Lone signs -/

/-- An equality sign between these characters is no part of another operator. -/
def isLone (before after : Option Char) : Bool :=
  !before.any (['!', '<', '>', '='].contains ·) && after != some '='

/-- The text, which follows `before` in the given region, starts with a lone sign. -/
def startsLone (r : Region) (before : Option Char) : List Char → Bool
  | [] => false
  | c :: cs => r == .code && c == '=' && isLone before cs.head?

/-- A lone sign stands somewhere in the text, which follows `before` in the given region. -/
def HasLoneFrom : Region → Option Char → List Char → Prop :=
  SomewhereFrom fun r before rest => startsLone r before rest = true

/-- A lone sign stands somewhere in code of the text. -/
def HasLone (s : List Char) : Prop := HasLoneFrom .code none s

/-- A lone sign is the second character of the text. -/
def secondLone (r : Region) : List Char → Bool
  | [] => false
  | c :: cs => startsLone (r.after (role c)) (some c) cs

/-- The text starts with a lone sign, a character and a second lone sign. -/
def startsCrowded (r : Region) (before : Option Char) (s : List Char) : Bool :=
  startsLone r before s && secondLone r (s.drop 1)

/-- Two lone signs with a single character between them stand somewhere in the text, which follows
`before` in the given region. -/
def CrowdedFrom : Region → Option Char → List Char → Prop :=
  SomewhereFrom fun r before rest => startsCrowded r before rest = true

/-- Two lone signs with a single character between them stand somewhere in code of the text. -/
def Crowded (s : List Char) : Prop := CrowdedFrom .code none s

/-- Doubles the lone signs of a text that follows `before` in the given region. -/
def doubleLoneFrom : Region → Option Char → List Char → List Char
  | _, _, [] => []
  | r, before, c :: cs =>
    let rest := doubleLoneFrom (r.after (role c)) (some c) cs
    if startsLone r before (c :: cs) then c :: c :: rest else c :: rest

/-- Doubles the lone signs of a text. -/
def doubleLone (s : List Char) : List Char := doubleLoneFrom .code none s

/-- In a text that follows `before` in the given region, lone signs have been doubled and all other
characters have been kept. -/
inductive Doubling : Region → Option Char → List Char → List Char → Prop
  | nil (r : Region) (before : Option Char) : Doubling r before [] []
  | keep {r : Region} {before : Option Char} {c : Char} {s t : List Char}
    (h : Doubling (r.after (role c)) (some c) s t) : Doubling r before (c :: s) (c :: t)
  | double {r : Region} {before : Option Char} {c : Char} {s t : List Char}
    (hlone : startsLone r before (c :: s) = true) (h : Doubling (r.after (role c)) (some c) s t) :
    Doubling r before (c :: s) (c :: c :: t)

variable {r : Region} {before : Option Char} {c : Char} {s : List Char}

theorem startsLone_cons_iff :
    startsLone r before (c :: s) = true ↔ r = .code ∧ c = '=' ∧ isLone before s.head? = true := by
  simp [startsLone, and_assoc]

theorem startsLone_of_ne (h : s.head? ≠ some '=') (r : Region) (before : Option Char) :
    startsLone r before s = false := by
  cases s with
  | nil => rfl
  | cons c cs =>
    refine Bool.eq_false_iff.2 fun hlone => h ?_
    rw [(startsLone_cons_iff.1 hlone).2.1, List.head?_cons]

theorem head?_ne_of_startsLone (h : startsLone r before (c :: s) = true) : s.head? ≠ some '=' := by
  have hlone := (startsLone_cons_iff.1 h).2.2
  rw [isLone, Bool.and_eq_true, bne_iff_ne] at hlone
  exact hlone.2

theorem isLone_quote_left (hc : (role c).isQuote = true) (after : Option Char) :
    isLone (some c) after = isLone none after := by
  obtain rfl | rfl := role_isQuote_iff.1 hc <;> rfl

theorem isLone_quote_right (hc : (role c).isQuote = true) (before : Option Char) :
    isLone before (some c) = isLone before none := by
  obtain rfl | rfl := role_isQuote_iff.1 hc <;> rfl

theorem startsLone_after_quote (hc : (role c).isQuote = true) (r : Region) (s : List Char) :
    startsLone r (some c) s = startsLone r none s := by
  cases s with
  | nil => rfl
  | cons d ds => rw [startsLone, startsLone, isLone_quote_left hc]

/-! ### What the rule does -/

/-- Doubles the lone signs from a place on, but none of the next `wait` characters.  A sign that is
doubled takes the character behind it, so that the sign behind that one has to do without. -/
def doubleApartFrom : (wait : Nat) → Region → Option Char → List Char → List Char
  | _, _, _, [] => []
  | wait, r, before, c :: cs =>
    if wait == 0 && startsLone r before (c :: cs) then
      c :: c :: doubleApartFrom 2 (r.after (role c)) (some c) cs
    else c :: doubleApartFrom (wait - 1) (r.after (role c)) (some c) cs

theorem doubleApartFrom_wait (wait : Nat) (r : Region) (before : Option Char) (c : Char)
    (s : List Char) : doubleApartFrom (wait + 1) r before (c :: s) =
      c :: doubleApartFrom wait (r.after (role c)) (some c) s := by
  rw [doubleApartFrom, if_neg (by simp), Nat.add_sub_cancel]

theorem doubleApartFrom_lone (h : startsLone r before (c :: s) = true) :
    doubleApartFrom 0 r before (c :: s) =
      c :: c :: doubleApartFrom 2 (r.after (role c)) (some c) s := by
  rw [doubleApartFrom, if_pos (by simp [h])]

theorem doubleApartFrom_keep (h : startsLone r before (c :: s) = false) (wait : Nat) :
    doubleApartFrom wait r before (c :: s) =
      c :: doubleApartFrom (wait - 1) (r.after (role c)) (some c) s := by
  rw [doubleApartFrom, if_neg (by simp [h])]

/-- Waiting for one character does nothing where no lone sign stands. -/
theorem doubleApartFrom_one (h : startsLone r before s = false) :
    doubleApartFrom 1 r before s = doubleApartFrom 0 r before s := by
  cases s with
  | nil => rfl
  | cons c cs => rw [doubleApartFrom_wait, doubleApartFrom_keep h]

theorem equalitySign_eq (lead rest : List Char) :
    equalitySign lead rest =
      if rest.head? = some '=' then none
      else some (lead.length + 1 + (rest.take 1).length, lead ++ "==".toList ++ rest.take 1) := by
  cases rest with
  | nil => simp [equalitySign]
  | cons d ds => by_cases hd : d = '=' <;> simp [equalitySign, hd]

/-- At a character that can lead to a sign, the pattern occurs exactly if a lone sign follows. -/
theorem equality_lead (h : before ≠ none ∨ c ≠ '=') (s : List Char) :
    equality before (c :: s) =
      if startsLone .code (some c) s then
        some (2 + ((s.drop 1).take 1).length, c :: "==".toList ++ (s.drop 1).take 1)
      else none := by
  have hlead : equality before (c :: s) = equality (some c) (c :: s) := by
    unfold equality
    split <;> simp_all
  rw [hlead]
  cases s with
  | nil => rfl
  | cons d rest =>
    by_cases hd : d = '='
    · subst hd
      have hiff : startsLone .code (some c) ('=' :: rest) = true ↔
          c ∉ ['!', '<', '>', '='] ∧ rest.head? ≠ some '=' := by
        simp [startsLone, isLone]
      change (if c ∈ ['!', '<', '>', '='] then none else equalitySign [c] rest) = _
      by_cases hc : c ∈ ['!', '<', '>', '=']
      · rw [if_pos hc, if_neg (by simp [hiff, hc])]
      · by_cases hrest : rest.head? = some '='
        · rw [if_neg hc, if_neg (by simp [hiff, hrest]), equalitySign_eq, if_pos hrest]
        · rw [if_neg hc, if_pos (hiff.2 ⟨hc, hrest⟩), equalitySign_eq, if_neg hrest]
          rfl
    · simp [equality, startsLone, hd]

/-- From every place behind an occurrence on, up to the given length, the pattern does what
`doubleApartFrom` does to a run of code. -/
def AgreesUpTo (n : Nat) : Prop :=
  ∀ b t, t.length ≤ n → QuoteFree t →
    replaceFrom equality (some b) 0 t = doubleApartFrom 1 .code (some b) t

/-- The character behind a sign is the last one of its occurrence. -/
theorem take_append_replaceFrom_equality {rest : List Char} {n : Nat} (hrest : QuoteFree rest)
    (hn : rest.length ≤ n) (ih : AgreesUpTo n) :
    rest.take 1 ++ replaceFrom equality (some '=') (rest.take 1).length rest =
      doubleApartFrom 2 .code (some '=') rest := by
  cases rest with
  | nil => rfl
  | cons d ds =>
    obtain ⟨hd, hds⟩ := List.forall_mem_cons.1 hrest
    rw [doubleApartFrom_wait, Region.after_of_isQuote_eq_false hd,
      ← ih d ds (Nat.le_of_succ_le hn) hds]
    rfl

/-- A character that can lead to a sign is kept, and the sign behind it is doubled. -/
theorem replaceFrom_equality_lead (h : before ≠ none ∨ c ≠ '=') (hs : QuoteFree s)
    (ih : AgreesUpTo s.length) :
    replaceFrom equality before 0 (c :: s) = c :: doubleApartFrom 0 .code (some c) s := by
  rw [replaceFrom, equality_lead h]
  cases hlone : startsLone .code (some c) s with
  | false =>
    rw [← doubleApartFrom_one hlone, ← ih c s (Nat.le_refl _) hs]
    rfl
  | true =>
    obtain ⟨d, rest, rfl⟩ := List.exists_cons_of_ne_nil (l := s) (by rintro rfl; cases hlone)
    obtain ⟨-, rfl, -⟩ := startsLone_cons_iff.1 hlone
    obtain ⟨hsign, hrest⟩ := List.forall_mem_cons.1 hs
    rw [doubleApartFrom_lone hlone, Region.after_of_isQuote_eq_false hsign,
      ← take_append_replaceFrom_equality hrest (Nat.le_succ _) ih]
    simp [Nat.add_comm 1 (min _ _), replaceFrom]

/-- Behind an occurrence, the character before the place is taken. -/
theorem replaceFrom_equality_some (b : Char) (hs : QuoteFree s) :
    replaceFrom equality (some b) 0 s = doubleApartFrom 1 .code (some b) s := by
  -- an occurrence is up to three characters long, so the induction is on the length
  induction hn : s.length using Nat.strongRecOn generalizing b s with
  | ind n ih =>
    subst hn
    cases s with
    | nil => rfl
    | cons c cs =>
      obtain ⟨hc, hcs⟩ := List.forall_mem_cons.1 hs
      rw [doubleApartFrom_wait, Region.after_of_isQuote_eq_false hc]
      exact replaceFrom_equality_lead (.inl (Option.some_ne_none b)) hcs fun d t hlen ht =>
        ih t.length (Nat.lt_succ_of_le hlen) d ht rfl

/-- **What the pattern does to a run of code.** -/
theorem replaceAll_equality (hs : QuoteFree s) :
    replaceAll equality s = doubleApartFrom 0 .code none s := by
  have hagrees (n : Nat) : AgreesUpTo n := fun b t _ ht => replaceFrom_equality_some b ht
  cases s with
  | nil => rfl
  | cons c cs =>
    obtain ⟨hc, hcs⟩ := List.forall_mem_cons.1 hs
    by_cases hsign : c = '='
    · -- a sign at the front of the run has no lead
      subst hsign
      have hfront : equality none ('=' :: cs) = equalitySign [] cs := rfl
      rw [replaceAll, replaceFrom, hfront, equalitySign_eq]
      by_cases hnext : cs.head? = some '='
      · have hlone : startsLone .code none ('=' :: cs) = false := by
          simp [startsLone, isLone, hnext]
        have hsecond : startsLone .code (some '=') cs = false := by
          cases cs <;> simp [startsLone, isLone]
        rw [if_pos hnext, doubleApartFrom_keep hlone, Region.after_of_isQuote_eq_false hc,
          ← doubleApartFrom_one hsecond, ← replaceFrom_equality_some '=' hcs]
      · have hlone : startsLone .code none ('=' :: cs) = true := by
          simp [startsLone, isLone, hnext]
        rw [if_neg hnext, doubleApartFrom_lone hlone, Region.after_of_isQuote_eq_false hc,
          ← take_append_replaceFrom_equality hcs (Nat.le_refl _) (hagrees _)]
        simp
    · rw [doubleApartFrom_keep (startsLone_of_ne (by simpa using hsign) _ _),
        Region.after_of_isQuote_eq_false hc]
      exact replaceFrom_equality_lead (.inr hsign) hcs (hagrees _)

/-! ### Literals -/

variable {run body : List Char} {q : Quote}

theorem head?_append_quote (hc : role c = .quote q) (before : Option Char) (run s : List Char) :
    isLone before (run ++ c :: s).head? = isLone before run.head? := by
  cases run with
  | nil => exact isLone_quote_right (Role.isQuote_iff.2 ⟨q, hc⟩) before
  | cons d ds => rfl

/-- A quote ends a run of code, and at most the first character of the literal is waited for. -/
theorem exists_doubleApartFrom_run (hrun : QuoteFree run) (hc : role c = .quote q) {wait : Nat}
    (hwait : wait ≤ 2) (before : Option Char) (s : List Char) :
    ∃ w ≤ 1, doubleApartFrom wait .code before (run ++ c :: s) =
      doubleApartFrom wait .code before run ++ c :: doubleApartFrom w (.literal q) (some c) s := by
  induction run generalizing wait before with
  | nil =>
    have hsign : c ≠ '=' := by rintro rfl; cases hc
    have hopen : Region.code.after (role c) = .literal q := by rw [hc]; rfl
    refine ⟨wait - 1, by omega, ?_⟩
    rw [List.nil_append, doubleApartFrom_keep (startsLone_of_ne (by simpa using hsign) _ _), hopen]
    rfl
  | cons d run ih =>
    obtain ⟨hd, hrun⟩ := List.forall_mem_cons.1 hrun
    have hsame :
        startsLone .code before (d :: (run ++ c :: s)) = startsLone .code before (d :: run) := by
      rw [startsLone, startsLone, head?_append_quote hc]
    rw [List.cons_append, doubleApartFrom, doubleApartFrom, hsame,
      Region.after_of_isQuote_eq_false hd]
    split
    · obtain ⟨w, hw, heq⟩ := ih hrun (Nat.le_refl 2) (some d)
      exact ⟨w, hw, by rw [heq]; rfl⟩
    · obtain ⟨w, hw, heq⟩ := @ih hrun (wait - 1) (by omega) (some d)
      exact ⟨w, hw, by rw [heq]; rfl⟩

theorem doubleApartFrom_literal (hbody : ∀ d ∈ body, role d ≠ .quote q) (wait : Nat)
    (before : Option Char) (s : List Char) :
    doubleApartFrom wait (.literal q) before (body ++ s) =
      body ++ doubleApartFrom (wait - body.length) (.literal q) (body.getLast?.or before) s := by
  induction body generalizing wait before with
  | nil => rfl
  | cons d body ih =>
    obtain ⟨hd, hbody⟩ := List.forall_mem_cons.1 hbody
    have hkeep : startsLone (.literal q) before (d :: (body ++ s)) = false := by simp [startsLone]
    rw [List.cons_append, doubleApartFrom_keep hkeep, Region.literal_after_of_ne hd, ih hbody,
      Text.getLast?_cons_or, List.length_cons, Nat.sub_add_eq, Nat.sub_right_comm]
    rfl

theorem doubleApartFrom_closed (hrun : QuoteFree run) (hc : role c = .quote q)
    (hbody : ∀ d ∈ body, role d ≠ .quote q) {d : Char} (hd : role d = .quote q) (s : List Char) :
    doubleApartFrom 0 .code none (run ++ c :: (body ++ d :: s)) =
      doubleApartFrom 0 .code none run ++ c :: (body ++ d :: doubleApartFrom 0 .code none s) := by
  obtain ⟨w, hw, heq⟩ :=
    exists_doubleApartFrom_run hrun hc (Nat.zero_le 2) none (body ++ d :: s)
  have hclose : (Region.literal q).after (role d) = .code := by rw [hd]; exact if_pos rfl
  have hkeep (b : Option Char) : startsLone (.literal q) b (d :: s) = false := by simp [startsLone]
  have hover : w - body.length - 1 = 0 := by omega
  have hquote : startsLone .code (some d) s = startsLone .code none s :=
    startsLone_after_quote (Role.isQuote_iff.2 ⟨q, hd⟩) _ s
  rw [heq, doubleApartFrom_literal hbody, doubleApartFrom_keep (hkeep _), hclose, hover]
  cases s with
  | nil => rfl
  | cons e es => rw [doubleApartFrom, doubleApartFrom, hquote]

/-- **What the rule does to a text.** -/
theorem equality_apply_eq_doubleApart (s : List Char) :
    Rule.equality.apply s = doubleApartFrom 0 .code none s := by
  have hnil : replaceAll equality [] = [] := rfl
  change mapCode (replaceAll equality) s = _
  induction segmented s with
  | run hrun => rw [mapCode_run hnil hrun, replaceAll_equality hrun]
  | @unclosed run body c q hrun hc hbody =>
    obtain ⟨w, -, heq⟩ := exists_doubleApartFrom_run hrun hc (Nat.zero_le 2) none body
    have hliteral := doubleApartFrom_literal hbody w (some c) []
    rw [mapCode_unclosed hnil hrun hc hbody, replaceAll_equality hrun, heq]
    simpa [doubleApartFrom] using hliteral.symm
  | closed hrun hc hbody hd _ ih =>
    rw [mapCode_closed hnil hrun hc hbody hd, replaceAll_equality hrun, ih,
      doubleApartFrom_closed hrun hc hbody hd]

/-! ### Crowded signs -/

theorem doubling_doubleApartFrom (wait : Nat) (r : Region) (before : Option Char) (s : List Char) :
    Doubling r before s (doubleApartFrom wait r before s) := by
  induction s generalizing wait r before with
  | nil => exact .nil r before
  | cons c cs ih =>
    rw [doubleApartFrom]
    split
    · rename_i h
      exact .double (Bool.and_eq_true_iff.1 h).2 (ih _ _ _)
    · exact .keep (ih _ _ _)

@[simp] theorem head?_doubleApartFrom (wait : Nat) (r : Region) (before : Option Char)
    (s : List Char) : (doubleApartFrom wait r before s).head? = s.head? := by
  cases s with
  | nil => rfl
  | cons c cs => rw [doubleApartFrom]; split <;> rfl

/-- A lone sign is among those that are waited for. -/
def missesFrom : (wait : Nat) → Region → Option Char → List Char → Bool
  | _, _, _, [] => false
  | wait, r, before, c :: cs =>
    if startsLone r before (c :: cs) then
      wait != 0 || missesFrom 2 (r.after (role c)) (some c) cs
    else missesFrom (wait - 1) (r.after (role c)) (some c) cs

theorem hasLoneFrom_cons : HasLoneFrom r before (c :: s) ↔
    startsLone r before (c :: s) = true ∨ HasLoneFrom (r.after (role c)) (some c) s :=
  somewhereFrom_cons

theorem crowdedFrom_cons : CrowdedFrom r before (c :: s) ↔
    startsCrowded r before (c :: s) = true ∨ CrowdedFrom (r.after (role c)) (some c) s :=
  somewhereFrom_cons

theorem hasLoneFrom_double (h : startsLone r before (c :: s) = true) (t : List Char) :
    HasLoneFrom r before (c :: c :: t) ↔ HasLoneFrom (r.after (role c)) (some c) t := by
  obtain ⟨rfl, rfl, -⟩ := startsLone_cons_iff.1 h
  have hfirst : startsLone .code before ('=' :: '=' :: t) = false := by simp [startsLone, isLone]
  have hsecond : startsLone .code (some '=') ('=' :: t) = false := by simp [startsLone, isLone]
  have hregion : Region.code.after (role '=') = .code := rfl
  rw [hasLoneFrom_cons, hasLoneFrom_cons, hregion, hfirst, hsecond, hregion]
  simp

/-- Lone signs are left exactly where they are missed. -/
theorem hasLoneFrom_doubleApartFrom (wait : Nat) (r : Region) (before : Option Char)
    (s : List Char) :
    HasLoneFrom r before (doubleApartFrom wait r before s) ↔ missesFrom wait r before s = true := by
  induction s generalizing wait r before with
  | nil => simp [doubleApartFrom, missesFrom, HasLoneFrom]
  | cons c cs ih =>
    -- what follows a character that is kept starts as it did before
    have hsame (w : Nat) :
        startsLone r before (c :: doubleApartFrom w (r.after (role c)) (some c) cs) =
          startsLone r before (c :: cs) := by
      rw [startsLone, startsLone, head?_doubleApartFrom]
    cases hlone : startsLone r before (c :: cs) with
    | false =>
      rw [doubleApartFrom_keep hlone, hasLoneFrom_cons, hsame, hlone, ih]
      simp [missesFrom, hlone]
    | true =>
      cases wait with
      | zero =>
        rw [doubleApartFrom_lone hlone, hasLoneFrom_double hlone, ih]
        simp [missesFrom, hlone]
      | succ wait =>
        rw [doubleApartFrom_wait, hasLoneFrom_cons, hsame, hlone]
        simp [missesFrom, hlone]

theorem doubleApartFrom_eq_doubleLoneFrom_iff (wait : Nat) (r : Region) (before : Option Char)
    (s : List Char) :
    doubleApartFrom wait r before s = doubleLoneFrom r before s ↔
      missesFrom wait r before s = false := by
  induction s generalizing wait r before with
  | nil => simp [doubleApartFrom, doubleLoneFrom, missesFrom]
  | cons c cs ih =>
    cases hlone : startsLone r before (c :: cs) with
    | false =>
      rw [doubleApartFrom_keep hlone]
      simp [doubleLoneFrom, missesFrom, hlone, ih]
    | true =>
      cases wait with
      | zero =>
        rw [doubleApartFrom_lone hlone]
        simp [doubleLoneFrom, missesFrom, hlone, ih]
      | succ wait =>
        -- a text with the second sign would start with it behind the first one
        have hnext : doubleApartFrom wait (r.after (role c)) (some c) cs ≠
            c :: doubleLoneFrom (r.after (role c)) (some c) cs := by
          intro heq
          have hhead := head?_doubleApartFrom wait (r.after (role c)) (some c) cs
          rw [heq, List.head?_cons, (startsLone_cons_iff.1 hlone).2.1] at hhead
          exact head?_ne_of_startsLone hlone hhead.symm
        rw [doubleApartFrom_wait]
        simp [doubleLoneFrom, missesFrom, hlone, hnext]

/-- The lone signs that are missed, by the number of characters that are waited for. -/
theorem missesFrom_iff (r : Region) (before : Option Char) (s : List Char) :
    (missesFrom 0 r before s = true ↔ CrowdedFrom r before s) ∧
      (missesFrom 1 r before s = true ↔ startsLone r before s = true ∨ CrowdedFrom r before s) ∧
      (s.head? ≠ some '=' →
        (missesFrom 2 r before s = true ↔ secondLone r s = true ∨ CrowdedFrom r before s)) := by
  induction s generalizing r before with
  | nil => simp [missesFrom, startsLone, secondLone, CrowdedFrom]
  | cons c cs ih =>
    obtain ⟨hzero, hone, htwo⟩ := ih (r.after (role c)) (some c)
    rw [crowdedFrom_cons]
    cases hlone : startsLone r before (c :: cs) with
    | false => simp [missesFrom, startsCrowded, secondLone, hlone, hzero, hone]
    | true =>
      obtain rfl : c = '=' := (startsLone_cons_iff.1 hlone).2.1
      have hregion : r.after (role '=') = r := Region.after_of_isQuote_eq_false rfl r
      have hmiss := htwo (head?_ne_of_startsLone hlone)
      rw [hregion] at hmiss
      simp [missesFrom, startsCrowded, hlone, hregion, hmiss]

/-- The rule doubles lone signs and changes nothing else.  **It doubles all of them, and leaves no
lone sign, exactly if no two of them are crowded.** -/
theorem equality_doubles_lone_signs (s : List Char) :
    Doubling .code none s (Rule.equality.apply s) ∧
      (Rule.equality.apply s = doubleLone s ↔ ¬ Crowded s) ∧
      (¬ HasLone (Rule.equality.apply s) ↔ ¬ Crowded s) := by
  obtain ⟨hcrowded, -, -⟩ := missesFrom_iff .code none s
  rw [equality_apply_eq_doubleApart]
  refine ⟨doubling_doubleApartFrom 0 .code none s, ?_, ?_⟩
  · rw [doubleLone, doubleApartFrom_eq_doubleLoneFrom_iff, ← Bool.not_eq_true, hcrowded, Crowded]
  · rw [HasLone, hasLoneFrom_doubleApartFrom, hcrowded, Crowded]

/-- The second of two crowded signs is passed over. -/
theorem equality_misses_crowded_sign :
    Rule.equality.apply "a=b=c".toList = "a==b=c".toList ∧
      doubleLone "a=b=c".toList = "a==b==c".toList := by
  decide

end Expr

end Pseudocode
