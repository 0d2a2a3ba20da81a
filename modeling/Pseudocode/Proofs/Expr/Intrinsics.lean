import Pseudocode.Proofs.Expr.Rewriting
import Pseudocode.Proofs.Scan.Segmented

/-!
# Calls of intrinsics

The rule for intrinsics takes the character before a call and the parenthesis of the call, so that
a call directly behind the parenthesis of another one is passed over.  A name that is spelled with
a long s is dropped, which makes a call of another name in front of it, if only blanks stand between
them.

* `StartsCall`, `HasCall` : a text starts with a call, and holds one in code.
* `Calls` : what the rule does to a text, place by place.
* `Hides` : the text holds a call that the rule passes over or makes.
* `hasCall_intrinsics_iff` : **a call is left exactly if the text hides one.**
* `intrinsics_eq_self_iff` : the rule changes a text exactly if it holds a call.
-/

namespace Pseudocode

namespace Expr

open Scan

/-! ### Calls -/

/-- The name of an intrinsic, in any letter case. -/
def IsIntrinsic (name : List Char) : Prop := name.map Text.keyChar ∈ intrinsics.map (·.1)

/-- The text starts with the name of an intrinsic, blanks and a parenthesis. -/
def StartsCall (s : List Char) : Prop :=
  ∃ name blanks back, IsIntrinsic name ∧ (∀ c ∈ blanks, Text.isBlank c = true) ∧
    s = name ++ (blanks ++ '(' :: back)

/-- A call may stand behind this character, which is no point and stands for no word character. -/
def leads (before : Option Char) : Bool :=
  !before.any fun c => c == '.' || Text.isLooseWordChar c

/-- A place in code at which a call may stand, where the rest of the text has the given
property. -/
def CallPlace (P : List Char → Prop) (r : Region) (before : Option Char) (rest : List Char) :
    Prop :=
  r = .code ∧ leads before = true ∧ P rest

/-- The text, which follows `before` in the given region, holds a call in code. -/
def HasCallFrom : Region → Option Char → List Char → Prop := SomewhereFrom (CallPlace StartsCall)

/-- The text holds a call in code. -/
def HasCall (s : List Char) : Prop := HasCallFrom .code none s

/-- The text starts with a call directly behind the parenthesis of another one. -/
def StartsNested (s : List Char) : Prop :=
  ∃ name blanks back, IsIntrinsic name ∧ (∀ c ∈ blanks, Text.isBlank c = true) ∧
    s = name ++ (blanks ++ '(' :: back) ∧ StartsCall back

/-- The text starts with a call of a name that is dropped. -/
def StartsDropped (s : List Char) : Prop :=
  ∃ name blanks back, IsIntrinsic name ∧ (∀ c ∈ blanks, Text.isBlank c = true) ∧
    s = name ++ (blanks ++ '(' :: back) ∧ memberFor name = []

/-- The text starts with a name, blanks and a call of a name that is dropped. -/
def StartsJoined (s : List Char) : Prop :=
  ∃ name blanks rest, IsIntrinsic name ∧ (∀ c ∈ blanks, Text.isBlank c = true) ∧ blanks ≠ [] ∧
    s = name ++ (blanks ++ rest) ∧ StartsDropped rest

/-- A call stands directly behind the parenthesis of another one, in code. -/
def NestedFrom : Region → Option Char → List Char → Prop := SomewhereFrom (CallPlace StartsNested)

/-- A call stands directly behind the parenthesis of another one, in code. -/
def Nested (s : List Char) : Prop := NestedFrom .code none s

/-- The text holds a call that is passed over, or a name that becomes one. -/
def HidesFrom : Region → Option Char → List Char → Prop :=
  SomewhereFrom (CallPlace fun rest => StartsNested rest ∨ StartsJoined rest)

/-- The text holds a call that is passed over, or a name that becomes one. -/
def Hides (s : List Char) : Prop := HidesFrom .code none s

variable {name name' blanks blanks' back back' s t : List Char} {r : Region} {free : Bool}
  {before : Option Char} {c : Char}

theorem IsIntrinsic.isLooseWordChar (h : IsIntrinsic name) :
    ∀ c ∈ name, Text.isLooseWordChar c = true := by
  have hnames : ∀ word ∈ intrinsics.map (·.1), word.all Text.isWordChar = true := by decide
  intro c hc
  exact List.all_eq_true.1 (hnames _ h) _ (List.mem_map_of_mem hc)

theorem IsIntrinsic.ne_nil (h : IsIntrinsic name) : name ≠ [] :=
  (isKeyword_of_mem_intrinsics h).ne_nil

theorem IsIntrinsic.head?_append (h : IsIntrinsic name) (s : List Char) :
    (name ++ s).head?.any Text.isLooseWordChar = true := by
  obtain ⟨c, name, rfl⟩ := List.exists_cons_of_ne_nil h.ne_nil
  exact h.isLooseWordChar c List.mem_cons_self

theorem StartsCall.head? (h : StartsCall s) : s.head?.any Text.isLooseWordChar = true := by
  obtain ⟨name, blanks, back, hname, -, rfl⟩ := h
  exact hname.head?_append _

theorem StartsCall.ne_nil (h : StartsCall s) : s ≠ [] := by
  rintro rfl
  cases h.head?

theorem not_startsCall_of_head? (h : s.head?.any Text.isLooseWordChar = false) :
    ¬ StartsCall s := by
  intro hstarts
  rw [hstarts.head?] at h
  cases h

theorem not_leads_of_isLooseWordChar (h : Text.isLooseWordChar c = true) :
    leads (some c) = false := by
  simp [leads, h]

theorem leads_of_isBlank (h : Text.isBlank c = true) : leads (some c) = true := by
  simp only [Text.isBlank, Bool.or_eq_true, beq_iff_eq] at h
  obtain (((rfl | rfl) | rfl) | rfl) | rfl := h <;> decide

theorem isQuote_of_isLooseWordChar (h : Text.isLooseWordChar c = true) :
    (role c).isQuote = false :=
  quoteFree_of_isNameChar (s := [c]) (by simpa using Text.isNameChar_of_isLooseWordChar h) c
    (by simp)

theorem isQuote_of_isBlank (h : Text.isBlank c = true) : (role c).isQuote = false :=
  quoteFree_of_forall (p := Text.isBlank) rfl rfl (s := [c]) (by simpa using h) c (by simp)

/-- A call can be read in one way only. -/
theorem call_append_inj (hname : IsIntrinsic name) (hname' : IsIntrinsic name')
    (hblanks : ∀ c ∈ blanks, Text.isBlank c = true)
    (hblanks' : ∀ c ∈ blanks', Text.isBlank c = true)
    (h : name ++ (blanks ++ '(' :: back) = name' ++ (blanks' ++ '(' :: back')) :
    name = name' ∧ blanks = blanks' ∧ back = back' := by
  obtain ⟨rfl, hrest⟩ := Text.run_append_inj hname.isLooseWordChar hname'.isLooseWordChar
    (Text.noWord_blanks_append hblanks rfl) (Text.noWord_blanks_append hblanks' rfl) h
  obtain ⟨rfl, hback⟩ := Text.run_append_inj hblanks hblanks' rfl rfl hrest
  exact ⟨rfl, rfl, (List.cons_eq_cons.1 hback).2⟩

theorem splitCall?_eq_some_iff {n : Nat} :
    splitCall? s = some (name, n) ↔ ∃ blanks back, IsIntrinsic name ∧
      (∀ c ∈ blanks, Text.isBlank c = true) ∧ s = name ++ (blanks ++ '(' :: back) ∧
      n = (name ++ (blanks ++ ['('])).length := by
  constructor
  · intro h
    obtain ⟨blanks, back, hs, hname, hblanks, hn⟩ := eq_append_of_splitCall? h
    exact ⟨blanks, back, hname, hblanks, hs, hn⟩
  · rintro ⟨blanks, back, hname, hblanks, rfl, rfl⟩
    -- some entry of the table matches, and a call can be read in one way only
    have hsome : (splitCall? (name ++ (blanks ++ '(' :: back))).isSome = true := by
      obtain ⟨⟨key, member⟩, hmem, hkey⟩ := List.mem_map.1 hname
      have hsplit : Text.splitKey? key (name ++ (blanks ++ '(' :: back)) = some (name, _) :=
        Text.splitKey?_eq_some_iff.2 ⟨hkey.symm, rfl⟩
      have hskip : Text.skipBlanks (blanks ++ '(' :: back) = '(' :: back := by
        rw [Text.skipBlanks, List.dropWhile_append_of_pos hblanks]
        rfl
      exact List.findSome?_isSome_iff.2 ⟨_, hmem, by simp only [hsplit, hskip, Option.isSome_some]⟩
    obtain ⟨⟨name', n⟩, hcall⟩ := Option.isSome_iff_exists.1 hsome
    obtain ⟨blanks', back', heq, hname', hblanks', rfl⟩ := eq_append_of_splitCall? hcall
    obtain ⟨rfl, rfl, -⟩ := call_append_inj hname hname' hblanks hblanks' heq
    exact hcall

theorem splitCall?_eq_none_iff : splitCall? s = none ↔ ¬ StartsCall s := by
  rw [← not_iff_not, not_not, ← ne_eq, Option.ne_none_iff_exists']
  constructor
  · rintro ⟨⟨name, n⟩, h⟩
    obtain ⟨blanks, back, hname, hblanks, hs, -⟩ := splitCall?_eq_some_iff.1 h
    exact ⟨name, blanks, back, hname, hblanks, hs⟩
  · rintro ⟨name, blanks, back, hname, hblanks, hs⟩
    exact ⟨_, splitCall?_eq_some_iff.2 ⟨blanks, back, hname, hblanks, hs, rfl⟩⟩

theorem startsNested_iff_splitCall? :
    StartsNested s ↔ ∃ call, splitCall? s = some call ∧ StartsCall (s.drop call.2) := by
  have hdrop : ∀ {name blanks back : List Char},
      (name ++ (blanks ++ '(' :: back)).drop (name ++ (blanks ++ ['('])).length = back := by
    intro name blanks back
    have heq : name ++ (blanks ++ '(' :: back) = (name ++ (blanks ++ ['('])) ++ back := by simp
    rw [heq, List.drop_left]
  constructor
  · rintro ⟨name, blanks, back, hname, hblanks, rfl, hback⟩
    refine ⟨_, splitCall?_eq_some_iff.2 ⟨blanks, back, hname, hblanks, rfl, rfl⟩, ?_⟩
    rwa [hdrop]
  · rintro ⟨⟨name, n⟩, hsplit, hback⟩
    obtain ⟨blanks, back, hname, hblanks, rfl, rfl⟩ := splitCall?_eq_some_iff.1 hsplit
    rw [hdrop] at hback
    exact ⟨name, blanks, back, hname, hblanks, rfl, hback⟩

instance (s : List Char) : Decidable (StartsCall s) :=
  decidable_of_iff (splitCall? s ≠ none) (by rw [ne_eq, splitCall?_eq_none_iff, not_not])

instance (s : List Char) : Decidable (StartsNested s) :=
  decidable_of_iff (∃ call ∈ splitCall? s, StartsCall (s.drop call.2))
    startsNested_iff_splitCall?.symm

instance (P : List Char → Prop) [DecidablePred P] (r : Region) (before : Option Char)
    (rest : List Char) : Decidable (CallPlace P r before rest) :=
  inferInstanceAs (Decidable (_ ∧ _ ∧ _))

instance (s : List Char) : Decidable (HasCall s) :=
  inferInstanceAs (Decidable (SomewhereFrom _ _ _ _))

instance (s : List Char) : Decidable (Nested s) :=
  inferInstanceAs (Decidable (SomewhereFrom _ _ _ _))

/-! ### What the rule does -/

/-- What the rule does to a text, place by place.  A place is free if a call may stand there and the
character before it has not been taken by another call. -/
inductive Calls : Region → (free : Bool) → List Char → List Char → Prop
  | nil {r : Region} {free : Bool} : Calls r free [] []
  | copy {r : Region} {free : Bool} {c : Char} {s t : List Char}
    (hno : r = .code → free = true → ¬ StartsCall (c :: s))
    (rest : Calls (r.after (role c)) (leads (some c)) s t) : Calls r free (c :: s) (c :: t)
  | call {name blanks s t : List Char} (hname : IsIntrinsic name)
    (hblanks : ∀ c ∈ blanks, Text.isBlank c = true) (rest : Calls .code false s t) :
    Calls .code true (name ++ (blanks ++ '(' :: s)) (memberFor name ++ '(' :: t)

/-- Whether a place is free does not matter where no call starts. -/
theorem Calls.of_not_startsCall (h : Calls r false s t) (hs : ¬ StartsCall s) (free : Bool) :
    Calls r free s t := by
  cases h with
  | nil => exact .nil
  | copy _ rest => exact .copy (fun _ _ => hs) rest

theorem intrinsicCall_cons {before : Option Char} (h : before ≠ none ∨ ¬ StartsCall (c :: s)) :
    intrinsicCall before (c :: s) =
      if leads (some c) then
        (splitCall? s).map fun (name, n) => (n + 1, c :: memberFor name ++ "(".toList)
      else none := by
  have hsecond : intrinsicCall before (c :: s) =
      if c = '.' || Text.isLooseWordChar c then none
      else (splitCall? s).map fun (name, n) => (n + 1, c :: memberFor name ++ "(".toList) := by
    unfold intrinsicCall
    split
    · rename_i hnone hcall
      obtain h | h := h
      · exact absurd rfl h
      · rw [splitCall?_eq_none_iff.2 h] at hcall
        cases hcall
    · rfl
  rw [hsecond]
  by_cases hpoint : c = '.'
  · simp [leads, hpoint]
  · by_cases hword : Text.isLooseWordChar c = true
    · simp [leads, hword]
    · simp [leads, hpoint, hword]

/-- Behind an occurrence, the character before the place is taken. -/
theorem calls_replaceFrom_some (b : Char) (hs : QuoteFree s) :
    Calls .code false s (replaceFrom intrinsicCall (some b) 0 s) := by
  -- an occurrence is a whole call, so the induction is on the length of the text
  induction hn : s.length using Nat.strongRecOn generalizing b s with
  | ind n ih =>
    subst hn
    cases s with
    | nil => exact .nil
    | cons c cs =>
      obtain ⟨hc, hcs⟩ := List.forall_mem_cons.1 hs
      have hcall := intrinsicCall_cons (s := cs) (c := c) (.inl (Option.some_ne_none b))
      have hrest := ih cs.length (Nat.lt_succ_self _) c hcs rfl
      by_cases hlead : leads (some c) = true
      · by_cases hstarts : StartsCall cs
        · obtain ⟨name, blanks, back, hname, hblanks, rfl⟩ := hstarts
          have hsplit := splitCall?_eq_some_iff.2 ⟨blanks, back, hname, hblanks, rfl, rfl⟩
          have hback : QuoteFree back := QuoteFree.mono hcs fun d hd => by simp [hd]
          have hrest := ih back.length (by simp; omega) '(' hback rfl
          have heq : c :: (name ++ (blanks ++ '(' :: back)) =
              (c :: (name ++ (blanks ++ ['(']))) ++ back := by simp
          have hlast : (c :: (name ++ (blanks ++ ['(']))).getLast? = some '(' := by
            rw [← List.cons_append, ← List.append_assoc, List.getLast?_concat]
          rw [if_pos hlead, hsplit, heq] at hcall
          rw [heq, replaceFrom_occurrence (List.cons_ne_nil _ _) hcall, hlast, ← heq]
          refine .copy (fun _ h => by cases h) ?_
          rw [Region.after_of_isQuote_eq_false hc, hlead]
          simpa using Calls.call hname hblanks hrest
        · rw [if_pos hlead, splitCall?_eq_none_iff.2 hstarts] at hcall
          simp only [replaceFrom, hcall, Option.map_none]
          refine .copy (fun _ h => by cases h) ?_
          rw [Region.after_of_isQuote_eq_false hc, hlead]
          exact hrest.of_not_startsCall hstarts true
      · rw [if_neg hlead] at hcall
        simp only [replaceFrom, hcall]
        refine .copy (fun _ h => by cases h) ?_
        rw [Region.after_of_isQuote_eq_false hc, Bool.eq_false_iff.2 hlead]
        exact hrest

/-- **What the pattern does to a run of code.** -/
theorem calls_replaceAll (hs : QuoteFree s) : Calls .code true s (replaceAll intrinsicCall s) := by
  by_cases hstarts : StartsCall s
  · obtain ⟨name, blanks, back, hname, hblanks, rfl⟩ := hstarts
    have hsplit := splitCall?_eq_some_iff.2 ⟨blanks, back, hname, hblanks, rfl, rfl⟩
    have hback : QuoteFree back := hs.mono fun d hd => by simp [hd]
    have heq : name ++ (blanks ++ '(' :: back) = (name ++ (blanks ++ ['('])) ++ back := by simp
    have hlast : (name ++ (blanks ++ ['('])).getLast? = some '(' := by simp
    have hcall : intrinsicCall none (name ++ (blanks ++ '(' :: back)) =
        some ((name ++ (blanks ++ ['('])).length, memberFor name ++ "(".toList) := by
      simp only [intrinsicCall, hsplit]
    rw [heq] at hcall
    rw [replaceAll, heq, replaceFrom_occurrence (by simp) hcall, hlast, ← heq, List.append_assoc]
    exact .call hname hblanks (calls_replaceFrom_some '(' hback)
  · cases s with
    | nil => exact .nil
    | cons c cs =>
      have hsame : replaceAll intrinsicCall (c :: cs) =
          replaceFrom intrinsicCall (some c) 0 (c :: cs) := by
        simp only [replaceAll, replaceFrom, intrinsicCall_cons (.inr hstarts)]
      rw [hsame]
      exact (calls_replaceFrom_some c hs).of_not_startsCall hstarts true

/-! ### Literals -/

/-- A call does not reach over a quote. -/
theorem StartsCall.of_append_quote (hc : (role c).isQuote = true) (h : StartsCall (s ++ c :: t)) :
    StartsCall s := by
  obtain ⟨name, blanks, back, hname, hblanks, heq⟩ := h
  have hhead : c ∉ name ++ (blanks ++ ['(']) := by
    intro hmem
    simp only [List.mem_append, List.mem_singleton] at hmem
    obtain hmem | hmem | rfl := hmem
    · rw [isQuote_of_isLooseWordChar (hname.isLooseWordChar c hmem)] at hc
      cases hc
    · rw [isQuote_of_isBlank (hblanks c hmem)] at hc
      cases hc
    · cases hc
  have hstarts : name ++ (blanks ++ ['(']) <+: s ++ c :: t := ⟨back, by simp [heq]⟩
  obtain ⟨back, rfl⟩ := isPrefix_of_notMem hhead hstarts
  exact ⟨name, blanks, back, hname, hblanks, by simp⟩

theorem leads_of_isQuote (hc : (role c).isQuote = true) : leads (some c) = true := by
  obtain rfl | rfl := role_isQuote_iff.1 hc <;> decide

theorem Calls.append_quote {s' t' : List Char} {q : Quote} (h : Calls r free s t) (hr : r = .code)
    (hs : QuoteFree s) (hc : role c = .quote q) (h' : Calls (.literal q) true s' t') :
    Calls r free (s ++ c :: s') (t ++ c :: t') := by
  have hquote : (role c).isQuote = true := Role.isQuote_iff.2 ⟨q, hc⟩
  have hopen : Region.code.after (role c) = .literal q := by rw [hc]; rfl
  induction h with
  | nil =>
    subst hr
    refine .copy (fun _ _ hstarts => ?_) ?_
    · exact StartsCall.ne_nil (hstarts.of_append_quote (s := []) hquote) rfl
    · rwa [hopen, leads_of_isQuote hquote]
  | copy hno rest ih =>
    obtain ⟨hd, hs⟩ := List.forall_mem_cons.1 hs
    refine .copy (fun hcode hfree hstarts => ?_) (ih ?_ hs)
    · exact hno hcode hfree (hstarts.of_append_quote hquote)
    · rw [Region.after_of_isQuote_eq_false hd, hr]
  | call hname hblanks rest ih =>
    have hrest := ih rfl (QuoteFree.mono hs fun d hd => by simp [hd])
    simpa using Calls.call hname hblanks hrest

theorem Calls.literal {body : List Char} {q : Quote} (hbody : ∀ d ∈ body, role d ≠ .quote q)
    (h : ∀ free, Calls (.literal q) free s t) (free : Bool) :
    Calls (.literal q) free (body ++ s) (body ++ t) := by
  induction body generalizing free with
  | nil => exact h free
  | cons d body ih =>
    obtain ⟨hd, hbody⟩ := List.forall_mem_cons.1 hbody
    refine .copy (fun hcode => by cases hcode) ?_
    rw [Region.literal_after_of_ne hd]
    exact ih hbody _

/-- **What the rule does to a text.** -/
theorem calls_apply (s : List Char) : Calls .code true s (Rule.intrinsics.apply s) := by
  have hnil : replaceAll intrinsicCall [] = [] := rfl
  change Calls .code true s (mapCode (replaceAll intrinsicCall) s)
  induction segmented s with
  | run hrun =>
    rw [mapCode_run hnil hrun]
    exact calls_replaceAll hrun
  | unclosed hrun hc hbody =>
    rw [mapCode_unclosed hnil hrun hc hbody]
    have hliteral := Calls.literal hbody (fun _ => .nil) true
    rw [List.append_nil] at hliteral
    exact (calls_replaceAll hrun).append_quote rfl hrun hc hliteral
  | @closed run body rest c d q hrun hc hbody hd _ ih =>
    have hclose : (Region.literal q).after (role d) = .code := by rw [hd]; exact if_pos rfl
    rw [mapCode_closed hnil hrun hc hbody hd]
    refine (calls_replaceAll hrun).append_quote rfl hrun hc (Calls.literal hbody (fun free => ?_) _)
    refine .copy (fun hcode => by cases hcode) ?_
    rwa [hclose, leads_of_isQuote (Role.isQuote_iff.2 ⟨q, hd⟩)]

/-! ### Names and blanks under the rule -/

theorem memberFor_eq_nil_or_head? (name : List Char) :
    memberFor name = [] ∨ ∃ member, memberFor name = 'M' :: member := by
  have hmembers : ∀ entry ∈ intrinsics, entry.2.head? = some 'M' := by decide
  obtain hnil | ⟨key, hmem⟩ := memberFor_cases name
  · exact .inl hnil
  · exact .inr (List.head?_eq_some_iff.1 (hmembers _ hmem))

theorem StartsDropped.startsCall (h : StartsDropped s) : StartsCall s := by
  obtain ⟨name, blanks, back, hname, hblanks, hs, -⟩ := h
  exact ⟨name, blanks, back, hname, hblanks, hs⟩

namespace Calls

/-- A character of what is made of a text has been copied, unless it is written for a call. -/
theorem of_cons_target (h : Calls r free s (c :: t)) :
    (∃ s', s = c :: s' ∧ Calls (r.after (role c)) (leads (some c)) s' t) ∨
      c = 'M' ∨ c = '(' ∧ free = true ∧ StartsDropped s := by
  generalize ht : c :: t = out at h
  cases h with
  | nil => cases ht
  | copy _ rest =>
    obtain ⟨rfl, rfl⟩ := List.cons_eq_cons.1 ht
    exact .inl ⟨_, rfl, rest⟩
  | @call name blanks back _ hname hblanks _ =>
    obtain hnil | ⟨member, hmember⟩ := memberFor_eq_nil_or_head? name
    · rw [hnil, List.nil_append] at ht
      exact .inr (.inr ⟨(List.cons_eq_cons.1 ht).1, rfl, name, blanks, back, hname, hblanks, rfl,
        hnil⟩)
    · rw [hmember, List.cons_append] at ht
      exact .inr (.inl (List.cons_eq_cons.1 ht).1)

/-- A character of a text with which no call starts is copied. -/
theorem of_cons_source (h : Calls r free (c :: s) t) (hs : ¬ StartsCall (c :: s)) :
    ∃ t', t = c :: t' ∧ Calls (r.after (role c)) (leads (some c)) s t' := by
  generalize hcons : c :: s = source at h
  cases h with
  | nil => cases hcons
  | copy _ rest =>
    obtain ⟨rfl, rfl⟩ := List.cons_eq_cons.1 hcons
    exact ⟨_, rfl, rest⟩
  | call hname hblanks _ => exact absurd ⟨_, _, _, hname, hblanks, hcons⟩ hs

/-- Of a call whose name is dropped, the parenthesis is left. -/
theorem of_startsDropped (h : Calls .code true s t) (hs : StartsDropped s) :
    ∃ t', t = '(' :: t' := by
  cases h with
  | nil => exact absurd rfl hs.startsCall.ne_nil
  | copy hno _ => exact absurd hs.startsCall (hno rfl rfl)
  | call hname hblanks _ =>
    obtain ⟨name, blanks, back, hname', hblanks', heq, hdropped⟩ := hs
    obtain ⟨rfl, -, -⟩ := call_append_inj hname hname' hblanks hblanks' heq
    rw [hdropped]
    exact ⟨_, rfl⟩

theorem word_source {w y : List Char} (hw : ∀ c ∈ w, Text.isLooseWordChar c = true)
    (h : Calls .code false s (w ++ y)) : ∃ s', s = w ++ s' ∧ Calls .code false s' y := by
  induction w generalizing s with
  | nil => exact ⟨s, rfl, h⟩
  | cons c w ih =>
    obtain ⟨hc, hw⟩ := List.forall_mem_cons.1 hw
    rw [List.cons_append] at h
    cases h with
    | copy _ rest =>
      rw [Region.after_of_isQuote_eq_false (isQuote_of_isLooseWordChar hc),
        not_leads_of_isLooseWordChar hc] at rest
      obtain ⟨s', rfl, h⟩ := ih hw rest
      exact ⟨s', rfl, h⟩

theorem word_target {w : List Char} (hw : ∀ c ∈ w, Text.isLooseWordChar c = true)
    (h : Calls .code false (w ++ s) t) : ∃ y, t = w ++ y ∧ Calls .code false s y := by
  induction w generalizing t with
  | nil => exact ⟨t, rfl, h⟩
  | cons c w ih =>
    obtain ⟨hc, hw⟩ := List.forall_mem_cons.1 hw
    rw [List.cons_append] at h
    cases h with
    | copy _ rest =>
      rw [Region.after_of_isQuote_eq_false (isQuote_of_isLooseWordChar hc),
        not_leads_of_isLooseWordChar hc] at rest
      obtain ⟨y, rfl, h⟩ := ih hw rest
      exact ⟨y, rfl, h⟩

/-- A parenthesis behind blanks is copied, or it is that of a call whose name is dropped. -/
theorem blanks_source {y : List Char} (hblanks : ∀ c ∈ blanks, Text.isBlank c = true)
    (h : Calls .code free s (blanks ++ '(' :: y)) :
    ∃ rest, s = blanks ++ rest ∧
      ((∃ back, rest = '(' :: back) ∨ (free = true ∨ blanks ≠ []) ∧ StartsDropped rest) := by
  induction blanks generalizing free s with
  | nil =>
    obtain ⟨back, rfl, -⟩ | hM | ⟨-, hfree, hdropped⟩ := h.of_cons_target
    · exact ⟨_, rfl, .inl ⟨back, rfl⟩⟩
    · cases hM
    · exact ⟨s, rfl, .inr ⟨.inl hfree, hdropped⟩⟩
  | cons c blanks ih =>
    obtain ⟨hc, hblanks⟩ := List.forall_mem_cons.1 hblanks
    obtain ⟨s, rfl, hrest⟩ | rfl | ⟨rfl, -⟩ := h.of_cons_target
    · rw [Region.after_of_isQuote_eq_false (isQuote_of_isBlank hc), leads_of_isBlank hc] at hrest
      obtain ⟨rest, rfl, hend⟩ := ih hblanks hrest
      exact ⟨rest, rfl, hend.imp_right fun h => ⟨.inr (List.cons_ne_nil _ _), h.2⟩⟩
    · cases hc
    · cases hc

theorem blanks_target {rest : List Char} (hblanks : ∀ c ∈ blanks, Text.isBlank c = true)
    (h : Calls .code free (blanks ++ rest) t)
    (hrest : (∃ back, rest = '(' :: back) ∨ (free = true ∨ blanks ≠ []) ∧ StartsDropped rest) :
    ∃ y, t = blanks ++ '(' :: y := by
  induction blanks generalizing free t with
  | nil =>
    obtain ⟨back, rfl⟩ | ⟨hfree, hdropped⟩ := hrest
    · obtain ⟨y, rfl, -⟩ := h.of_cons_source (not_startsCall_of_head? rfl)
      exact ⟨y, rfl⟩
    · obtain rfl : free = true := hfree.resolve_right (absurd rfl)
      exact h.of_startsDropped hdropped
  | cons c blanks ih =>
    obtain ⟨hc, hblanks⟩ := List.forall_mem_cons.1 hblanks
    obtain ⟨t, rfl, hcopy⟩ :=
      h.of_cons_source (not_startsCall_of_head? (Text.isLooseWordChar_of_isBlank hc))
    rw [Region.after_of_isQuote_eq_false (isQuote_of_isBlank hc), leads_of_isBlank hc] at hcopy
    obtain ⟨y, rfl⟩ := ih hblanks hcopy (hrest.imp_right fun h => ⟨.inl rfl, h.2⟩)
    exact ⟨y, rfl⟩

/-- A text whose first character is copied starts with a call exactly if it did before, or if a name
that is dropped has been dropped behind its blanks. -/
theorem startsCall_copy_iff (h : Calls (Region.code.after (role c)) (leads (some c)) s t) :
    StartsCall (c :: t) ↔ StartsCall (c :: s) ∨ StartsJoined (c :: s) := by
  have hword : ∀ {w : List Char}, IsIntrinsic (c :: w) → Calls .code false s t := by
    intro w hname
    have hc := hname.isLooseWordChar c List.mem_cons_self
    rwa [Region.after_of_isQuote_eq_false (isQuote_of_isLooseWordChar hc),
      not_leads_of_isLooseWordChar hc] at h
  have hinner : ∀ {w : List Char}, IsIntrinsic (c :: w) → ∀ d ∈ w, Text.isLooseWordChar d = true :=
    fun hname d hd => hname.isLooseWordChar d (List.mem_cons_of_mem _ hd)
  have htarget : ∀ {w blanks rest : List Char}, IsIntrinsic (c :: w) →
      (∀ d ∈ blanks, Text.isBlank d = true) → s = w ++ (blanks ++ rest) →
      (∃ back, rest = '(' :: back) ∨ (false = true ∨ blanks ≠ []) ∧ StartsDropped rest →
      StartsCall (c :: t) := by
    intro w blanks rest hname hblanks hs hrest
    obtain ⟨y, rfl, hy⟩ := word_target (hinner hname) (hs ▸ hword hname)
    obtain ⟨back, rfl⟩ := hy.blanks_target hblanks hrest
    exact ⟨c :: w, blanks, back, hname, hblanks, rfl⟩
  constructor
  · rintro ⟨name, blanks, back, hname, hblanks, heq⟩
    obtain ⟨d, w, rfl⟩ := List.exists_cons_of_ne_nil hname.ne_nil
    obtain ⟨rfl, rfl⟩ := List.cons_eq_cons.1 heq
    obtain ⟨s', rfl, hs'⟩ := word_source (hinner hname) (hword hname)
    obtain ⟨rest, rfl, ⟨back, rfl⟩ | ⟨hne, hdropped⟩⟩ := hs'.blanks_source hblanks
    · exact .inl ⟨c :: w, blanks, back, hname, hblanks, rfl⟩
    · have hne : blanks ≠ [] := hne.resolve_left Bool.false_ne_true
      exact .inr ⟨c :: w, blanks, rest, hname, hblanks, hne, rfl, hdropped⟩
  · rintro (⟨name, blanks, back, hname, hblanks, heq⟩ |
      ⟨name, blanks, rest, hname, hblanks, hne, heq, hdropped⟩)
    · obtain ⟨d, w, rfl⟩ := List.exists_cons_of_ne_nil hname.ne_nil
      obtain ⟨rfl, hs⟩ := List.cons_eq_cons.1 heq
      exact htarget hname hblanks hs (.inl ⟨back, rfl⟩)
    · obtain ⟨d, w, rfl⟩ := List.exists_cons_of_ne_nil hname.ne_nil
      obtain ⟨rfl, hs⟩ := List.cons_eq_cons.1 heq
      exact htarget hname hblanks hs (.inr ⟨.inr hne, hdropped⟩)

end Calls

/-! ### Calls that are left -/

section

variable {P : List Char → Prop} {x y : List Char}

theorem somewhereFrom_symbols (hP : ∀ rest, P rest → rest.head?.any Text.isLooseWordChar = true)
    (hquote : QuoteFree y) (hy : ∀ c ∈ y, Text.isLooseWordChar c = false) :
    SomewhereFrom (CallPlace P) .code before (y ++ s) ↔
      SomewhereFrom (CallPlace P) .code (y.getLast?.or before) s := by
  refine somewhereFrom_append hquote fun front c back hcut hplace => ?_
  have hhead := hP _ hplace.2.2
  rw [List.head?_cons, Option.any_some, hy c (by simp [hcut])] at hhead
  cases hhead

theorem somewhereFrom_word (hquote : QuoteFree x) (hx : ∀ c ∈ x, leads (some c) = false)
    (hbefore : leads before = false) :
    SomewhereFrom (CallPlace P) .code before (x ++ s) ↔
      SomewhereFrom (CallPlace P) .code (x.getLast?.or before) s := by
  refine somewhereFrom_append hquote fun front c back hcut hplace => ?_
  have hlead : leads (front.getLast?.or before) = false := by
    cases hlast : front.getLast? with
    | none => exact hbefore
    | some d => exact hx d (by simp [hcut, List.mem_of_getLast? hlast])
  rw [CallPlace, hlead] at hplace
  cases hplace.2.1

/-- A call starts at the front of a word or behind the parenthesis that follows it. -/
theorem somewhereFrom_head (hP : ∀ rest, P rest → rest.head?.any Text.isLooseWordChar = true)
    (hx : ∀ c ∈ x, leads (some c) = false) (hquote : QuoteFree x)
    (hblanks : ∀ c ∈ blanks, Text.isBlank c = true) :
    SomewhereFrom (CallPlace P) .code before (x ++ (blanks ++ '(' :: s)) ↔
      CallPlace P .code before (x ++ (blanks ++ '(' :: s)) ∨
        SomewhereFrom (CallPlace P) .code (some '(') s := by
  have hsymbols : ∀ c ∈ blanks ++ ['('], Text.isLooseWordChar c = false := by
    refine List.forall_mem_append.2 ⟨fun c hc => ?_, List.forall_mem_singleton.2 (by decide)⟩
    exact Text.isLooseWordChar_of_isBlank (hblanks c hc)
  have hfree : QuoteFree (blanks ++ ['(']) :=
    QuoteFree.append (fun c hc => isQuote_of_isBlank (hblanks c hc)) (by decide)
  have hpass (b : Option Char) : SomewhereFrom (CallPlace P) .code b (blanks ++ '(' :: s) ↔
      SomewhereFrom (CallPlace P) .code (some '(') s := by
    rw [List.append_cons, somewhereFrom_symbols hP hfree hsymbols, List.getLast?_concat]
    rfl
  cases x with
  | nil =>
    have hno : ¬ CallPlace P .code before (blanks ++ '(' :: s) := by
      intro hplace
      have hhead := hP _ hplace.2.2
      rw [Text.noWord_blanks_append hblanks rfl] at hhead
      cases hhead
    rw [List.nil_append, hpass, or_iff_right hno]
  | cons c x =>
    obtain ⟨hc, hx⟩ := List.forall_mem_cons.1 hx
    obtain ⟨hquoteC, hquote⟩ := List.forall_mem_cons.1 hquote
    rw [List.cons_append, somewhereFrom_cons, Region.after_of_isQuote_eq_false hquoteC,
      somewhereFrom_word hquote hx hc, hpass]

end

theorem not_leads_of_mem_memberFor (name : List Char) :
    ∀ c ∈ memberFor name, leads (some c) = false := by
  have hmembers : ∀ entry ∈ intrinsics, entry.2.all (fun c => !leads (some c)) = true := by
    decide
  obtain hnil | ⟨key, hmem⟩ := memberFor_cases name
  · simp [hnil]
  · intro c hc
    simpa using List.all_eq_true.1 (hmembers _ hmem) c hc

theorem not_startsCall_memberFor (name s : List Char) :
    ¬ StartsCall (memberFor name ++ '(' :: s) := by
  have hnames : ∀ word ∈ intrinsics.map (·.1), word.head? ≠ some 'm' := by decide
  intro hstarts
  obtain hnil | ⟨member, hmember⟩ := memberFor_eq_nil_or_head? name
  · rw [hnil] at hstarts
    cases hstarts.head?
  · obtain ⟨read, blanks, back, hread, -, heq⟩ := hstarts
    obtain ⟨c, read, rfl⟩ := List.exists_cons_of_ne_nil hread.ne_nil
    rw [hmember] at heq
    obtain ⟨rfl, -⟩ := List.cons_eq_cons.1 heq
    exact hnames _ hread rfl

theorem StartsNested.startsCall (h : StartsNested s) : StartsCall s := by
  obtain ⟨name, blanks, back, hname, hblanks, hs, -⟩ := h
  exact ⟨name, blanks, back, hname, hblanks, hs⟩

theorem startsNested_iff (hname : IsIntrinsic name)
    (hblanks : ∀ c ∈ blanks, Text.isBlank c = true) :
    StartsNested (name ++ (blanks ++ '(' :: back)) ↔ StartsCall back := by
  constructor
  · rintro ⟨name', blanks', back', hname', hblanks', heq, hback⟩
    obtain ⟨-, -, rfl⟩ := call_append_inj hname hname' hblanks hblanks' heq
    exact hback
  · exact fun hback => ⟨name, blanks, back, hname, hblanks, rfl, hback⟩

theorem not_startsJoined (hname : IsIntrinsic name) (hblanks : ∀ c ∈ blanks, Text.isBlank c = true)
    (back : List Char) : ¬ StartsJoined (name ++ (blanks ++ '(' :: back)) := by
  rintro ⟨name', blanks', rest, hname', hblanks', hne, heq, hdropped⟩
  have hrest := hdropped.startsCall.head?
  have hblank : rest.head?.any Text.isBlank = false := by
    cases hhead : rest.head? with
    | none => rfl
    | some c =>
      rw [hhead, Option.any_some] at hrest
      refine Bool.eq_false_iff.2 fun hc => ?_
      rw [Text.isLooseWordChar_of_isBlank hc] at hrest
      cases hrest
  have hstop : (blanks' ++ rest).head?.any Text.isLooseWordChar = false := by
    obtain ⟨c, blanks', rfl⟩ := List.exists_cons_of_ne_nil hne
    exact Text.isLooseWordChar_of_isBlank (hblanks' c List.mem_cons_self)
  obtain ⟨rfl, htail⟩ := Text.run_append_inj hname.isLooseWordChar hname'.isLooseWordChar
    (Text.noWord_blanks_append hblanks rfl) hstop heq
  obtain ⟨rfl, rfl⟩ := Text.run_append_inj hblanks hblanks' rfl hblank htail
  cases hrest

theorem head?_of_hides (rest : List Char) (h : StartsNested rest ∨ StartsJoined rest) :
    rest.head?.any Text.isLooseWordChar = true := by
  obtain hnested | ⟨name, blanks, back, hname, -, -, rfl, -⟩ := h
  · exact hnested.startsCall.head?
  · exact hname.head?_append _

/-- The calls that the rule leaves are those that the text hides, and one at its front if its place
is not free. -/
theorem Calls.hasCallFrom_iff (h : Calls r free s t) (hfree : free = true → leads before = true) :
    HasCallFrom r before t ↔
      HidesFrom r before s ∨ CallPlace StartsCall r before s ∧ free = false := by
  induction h generalizing before with
  | nil =>
    have hno : ¬ StartsCall [] := fun h => h.ne_nil rfl
    simp [HasCallFrom, HidesFrom, CallPlace, hno]
  | @copy r free c s t hno rest ih =>
    have hrest : HasCallFrom (r.after (role c)) (some c) t ↔
        HidesFrom (r.after (role c)) (some c) s := by
      rw [ih id]
      refine or_iff_left fun ⟨hplace, hfree⟩ => ?_
      rw [hplace.2.1] at hfree
      cases hfree
    rw [HasCallFrom, somewhereFrom_cons, HidesFrom, somewhereFrom_cons]
    rw [HasCallFrom, HidesFrom] at hrest
    rw [hrest, or_right_comm]
    refine or_congr_left ?_
    by_cases hr : r = .code
    · subst hr
      have hnested : StartsNested (c :: s) → StartsCall (c :: s) := fun h => h.startsCall
      simp only [CallPlace, startsCall_copy_iff rest, true_and]
      cases free with
      | true =>
        have hcall : ¬ StartsCall (c :: s) := hno rfl rfl
        simp [hcall, mt hnested hcall]
      | false => rw [and_iff_left rfl, ← and_or_left, or_right_comm, or_iff_right_of_imp hnested]
    · simp [CallPlace, hr]
  | @call name blanks s t hname hblanks rest ih =>
    have hname' : ∀ c ∈ name, leads (some c) = false := fun c hc =>
      not_leads_of_isLooseWordChar (hname.isLooseWordChar c hc)
    have hplace : CallPlace (fun rest => StartsNested rest ∨ StartsJoined rest) .code before
        (name ++ (blanks ++ '(' :: s)) ↔ StartsCall s := by
      rw [CallPlace, startsNested_iff hname hblanks, or_iff_left (not_startsJoined hname hblanks s)]
      simp [hfree]
    calc HasCallFrom .code before (memberFor name ++ '(' :: t)
        ↔ HasCallFrom .code (some '(') t := by
          rw [HasCallFrom, ← List.nil_append ('(' :: t),
            somewhereFrom_head (fun _ => StartsCall.head?) (not_leads_of_mem_memberFor name)
              (memberFor_quoteFree name) (List.forall_mem_nil _)]
          exact or_iff_right fun h => not_startsCall_memberFor name t h.2.2
      _ ↔ StartsCall s ∨ HidesFrom .code (some '(') s := by
          rw [ih (fun h => by cases h), or_comm]
          simp [CallPlace, (by decide : leads (some '(') = true)]
      _ ↔ HidesFrom .code before (name ++ (blanks ++ '(' :: s)) := by
          rw [HidesFrom, somewhereFrom_head head?_of_hides hname'
            (isKeyword_of_mem_intrinsics hname).quoteFree hblanks, hplace]
      _ ↔ _ := by simp

/-- **A call is left exactly if the text hides one.** -/
theorem hasCall_intrinsics_iff (s : List Char) : HasCall (Rule.intrinsics.apply s) ↔ Hides s := by
  rw [HasCall, (calls_apply s).hasCallFrom_iff fun _ => rfl, Hides]
  simp

/-- Where every place is free at which a call may stand, a text stays as it is exactly if it holds
no call. -/
theorem Calls.eq_self_iff (h : Calls r free s t) (hfree : free = leads before) :
    t = s ↔ ¬ HasCallFrom r before s := by
  induction h generalizing before with
  | nil => simp [HasCallFrom]
  | @copy r free c s t hno rest ih =>
    have hplace : ¬ CallPlace StartsCall r before (c :: s) := fun ⟨hr, hlead, hstarts⟩ =>
      hno hr (hfree.trans hlead) hstarts
    rw [HasCallFrom, somewhereFrom_cons, or_iff_right hplace, List.cons_eq_cons,
      and_iff_right rfl]
    exact ih rfl
  | @call name blanks s t hname hblanks rest ih =>
    have hstarts : StartsCall (name ++ (blanks ++ '(' :: s)) :=
      ⟨name, blanks, s, hname, hblanks, rfl⟩
    have hcall : HasCallFrom .code before (name ++ (blanks ++ '(' :: s)) :=
      ⟨[], _, rfl, hstarts.ne_nil, rfl, hfree.symm, hstarts⟩
    refine iff_of_false (fun heq => ?_) (not_not.2 hcall)
    exact not_startsCall_memberFor name t (heq ▸ hstarts)

/-- **The rule changes a text exactly if it holds a call.** -/
theorem intrinsics_eq_self_iff (s : List Char) : Rule.intrinsics.apply s = s ↔ ¬ HasCall s :=
  (calls_apply s).eq_self_iff rfl

end Expr

end Pseudocode
