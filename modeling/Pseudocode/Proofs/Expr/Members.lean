import Pseudocode.Proofs.Expr.NestedCalls
import Pseudocode.Proofs.LetterCase

/-!
# Members for intrinsics

The pattern for intrinsics looks for a name up to case, and the member of `Math` is looked up for
the name in lower case.  The two agree on ASCII letters.  The long s is a lower-case letter of its
own that is an s up to case, so a call whose name is spelled with it is found, and its name is
dropped.

* `CallSite` : a place at which the pattern occurs.
* `Searched` : the search for the pattern from the left, place by place.
* `intrinsicCall_eq_some_iff` : **what the pattern finds.**
* `memberFor_eq` : the member for a name, unless it is spelled with a long s.
* `intrinsics_named_unless_long_s` : **what is written for every call that is found.**
-/

namespace Pseudocode

namespace Expr

open Text (SameFold)

/-! ### The search -/

/-- A call of an intrinsic, up to its parenthesis. -/
structure CallSite where
  /-- The character before the name, unless the name stands at the front of the text. -/
  lead : Option Char
  /-- The name as it is spelled. -/
  name : List Char
  /-- What stands between the name and the parenthesis. -/
  blanks : List Char
  deriving DecidableEq, Repr

namespace CallSite

/-- The text of the call. -/
def text (o : CallSite) : List Char := o.lead.toList ++ (o.name ++ (o.blanks ++ ['(']))

/-- What is written for the call. -/
def written (o : CallSite) : List Char := o.lead.toList ++ (memberFor o.name ++ ['('])

/-- The call is one that is looked for: the name of an intrinsic up to case, with blanks behind it
and with a character before it that is no point and continues no word.  The character may be missing
at the front of the text. -/
structure Fits (front : Bool) (o : CallSite) : Prop where
  front : o.lead = none → front = true
  leads : leads o.lead = true
  name : ∃ entry ∈ intrinsics, SameFold o.name entry.1
  blanks : ∀ c ∈ o.blanks, Text.isBlank c = true

end CallSite

/-- The search for calls from the left, at the front of the text or behind it: the characters that
belong to no call, and the calls.  The search goes on behind a call that it finds. -/
inductive Searched : (front : Bool) → List Char → List (Char ⊕ CallSite) → Prop
  | nil {front : Bool} : Searched front [] []
  | copy {front : Bool} {c : Char} {s : List Char} {found : List (Char ⊕ CallSite)}
    (hno : ∀ (o : CallSite) (back : List Char), o.Fits front → c :: s ≠ o.text ++ back)
    (rest : Searched false s found) : Searched front (c :: s) (.inl c :: found)
  | call {front : Bool} {o : CallSite} {s : List Char} {found : List (Char ⊕ CallSite)}
    (h : o.Fits front) (rest : Searched false s found) :
    Searched front (o.text ++ s) (.inr o :: found)

/-- What is written for what is found. -/
def writtenFor : Char ⊕ CallSite → List Char
  | .inl c => [c]
  | .inr o => o.written

/-! ### Names up to case -/

variable {name s back back' : List Char} {front : Bool} {o o' : CallSite} {before : Option Char}

theorem isPlainWord_of_mem_intrinsics :
    ∀ entry ∈ intrinsics, Text.isPlainWord entry.1 = true := by decide

/-- **Names are read up to case.** -/
theorem isIntrinsic_iff_sameFold :
    IsIntrinsic name ↔ ∃ entry ∈ intrinsics, SameFold name entry.1 := by
  have hascii : ∀ entry ∈ intrinsics, Text.isAsciiWord entry.1 = true := by decide
  rw [IsIntrinsic, List.mem_map]
  constructor
  · rintro ⟨entry, hentry, hname⟩
    exact ⟨entry, hentry, Text.sameFold_of_keyChar (hascii entry hentry) hname.symm⟩
  · rintro ⟨entry, hentry, hname⟩
    have hplain := isPlainWord_of_mem_intrinsics entry hentry
    exact ⟨entry, hentry, (Text.map_keyChar_of_sameFold hplain hname).symm⟩

/-! ### What the pattern finds -/

theorem CallSite.text_ne_nil (o : CallSite) : o.text ≠ [] := by simp [text]

theorem CallSite.text_of_front (name blanks back : List Char) :
    (⟨none, name, blanks⟩ : CallSite).text ++ back = name ++ (blanks ++ '(' :: back) := by
  simp [text]

theorem CallSite.text_of_lead (c : Char) (name blanks back : List Char) :
    (⟨some c, name, blanks⟩ : CallSite).text ++ back = c :: (name ++ (blanks ++ '(' :: back)) := by
  simp [text]

theorem isLooseWordChar_of_leads {c : Char} (h : leads (some c) = true) :
    Text.isLooseWordChar c = false := by
  refine Bool.eq_false_iff.2 fun hc => ?_
  rw [not_leads_of_isLooseWordChar hc] at h
  cases h

/-- A name starts with a word character, which tells it from the character before a name. -/
theorem IsIntrinsic.append_ne_cons {c : Char} {t : List Char} (hname : IsIntrinsic name)
    (hlead : leads (some c) = true) : name ++ s ≠ c :: t := by
  intro heq
  have hhead := hname.head?_append s
  rw [heq, List.head?_cons, Option.any_some, isLooseWordChar_of_leads hlead] at hhead
  cases hhead

/-- **What the pattern finds:** a call that is looked for, and what is written for it. -/
theorem intrinsicCall_eq_some_iff {n : Nat} {v : List Char} :
    intrinsicCall before s = some (n, v) ↔
      ∃ (o : CallSite) (back : List Char), o.Fits before.isNone ∧ s = o.text ++ back ∧
        n = o.text.length ∧ v = o.written := by
  constructor
  · intro h
    by_cases hfront : before = none ∧ StartsCall s
    · obtain ⟨rfl, name, blanks, back, hname, hblanks, rfl⟩ := hfront
      have hsplit := splitCall?_eq_some_iff.2 ⟨blanks, back, hname, hblanks, rfl, rfl⟩
      simp only [intrinsicCall, hsplit, Option.some.injEq, Prod.mk.injEq] at h
      obtain ⟨rfl, rfl⟩ := h
      refine ⟨⟨none, name, blanks⟩, back, ⟨fun _ => rfl, rfl, ?_, hblanks⟩, ?_, rfl, rfl⟩
      · exact isIntrinsic_iff_sameFold.1 hname
      · rw [CallSite.text_of_front]
    · cases s with
      | nil => cases before <;> cases h
      | cons c s =>
        rw [intrinsicCall_cons (not_and_or.1 hfront)] at h
        split at h
        · rename_i hlead
          simp only [Option.map_eq_some_iff, Prod.exists, Prod.mk.injEq] at h
          obtain ⟨name, n, hsplit, rfl, rfl⟩ := h
          obtain ⟨blanks, back, hname, hblanks, rfl, rfl⟩ := splitCall?_eq_some_iff.1 hsplit
          refine ⟨⟨some c, name, blanks⟩, back, ⟨fun hnone => ?_, hlead, ?_, hblanks⟩, ?_, rfl, rfl⟩
          · cases hnone
          · exact isIntrinsic_iff_sameFold.1 hname
          · rw [CallSite.text_of_lead]
        · cases h
  · rintro ⟨⟨lead, name, blanks⟩, back, h, rfl, rfl, rfl⟩
    have hname : IsIntrinsic name := isIntrinsic_iff_sameFold.2 h.name
    have hsplit := splitCall?_eq_some_iff.2 ⟨blanks, back, hname, h.blanks, rfl, rfl⟩
    cases lead with
    | none =>
      obtain rfl : before = none := Option.isNone_iff_eq_none.1 (h.front rfl)
      rw [CallSite.text_of_front]
      simp only [intrinsicCall, hsplit]
      rfl
    | some c =>
      have hlead : leads (some c) = true := h.leads
      have hno : ¬ StartsCall (c :: (name ++ (blanks ++ '(' :: back))) :=
        not_startsCall_of_head? (isLooseWordChar_of_leads hlead)
      rw [CallSite.text_of_lead, intrinsicCall_cons (.inr hno), if_pos hlead, hsplit]
      rfl

theorem ne_append_of_intrinsicCall (hcall : intrinsicCall before s = none)
    (h : o.Fits before.isNone) : s ≠ o.text ++ back := by
  intro hs
  rw [intrinsicCall_eq_some_iff.2 ⟨o, back, h, hs, rfl, rfl⟩] at hcall
  cases hcall

theorem CallSite.Fits.eq_of_append (h : o.Fits front) (h' : o'.Fits front)
    (heq : o.text ++ back = o'.text ++ back') : o = o' ∧ back = back' := by
  have hname := isIntrinsic_iff_sameFold.2 h.name
  have hname' := isIntrinsic_iff_sameFold.2 h'.name
  obtain ⟨lead, name, blanks⟩ := o
  obtain ⟨lead', name', blanks'⟩ := o'
  cases lead with
  | none =>
    cases lead' with
    | none =>
      rw [text_of_front, text_of_front] at heq
      obtain ⟨rfl, rfl, rfl⟩ := call_append_inj hname hname' h.blanks h'.blanks heq
      exact ⟨rfl, rfl⟩
    | some c =>
      rw [text_of_front, text_of_lead] at heq
      exact absurd heq (hname.append_ne_cons h'.leads)
  | some c =>
    cases lead' with
    | none =>
      rw [text_of_front, text_of_lead] at heq
      exact absurd heq.symm (hname'.append_ne_cons h.leads)
    | some c' =>
      rw [text_of_lead, text_of_lead] at heq
      obtain ⟨rfl, hrest⟩ := List.cons.inj heq
      obtain ⟨rfl, rfl, rfl⟩ := call_append_inj hname hname' h.blanks h'.blanks hrest
      exact ⟨rfl, rfl⟩

/-- **The search has one outcome.** -/
theorem Searched.unique {found found' : List (Char ⊕ CallSite)} (h : Searched front s found)
    (h' : Searched front s found') : found' = found := by
  induction h generalizing found' with
  | nil =>
    generalize hs : [] = s at h'
    cases h' with
    | nil => rfl
    | copy => cases hs
    | call => exact absurd (List.append_eq_nil_iff.1 hs.symm).1 (CallSite.text_ne_nil _)
  | @copy front c s found hno rest ih =>
    generalize hs : c :: s = s' at h'
    cases h' with
    | nil => cases hs
    | copy _ rest' =>
      obtain ⟨rfl, rfl⟩ := List.cons.inj hs
      rw [ih rest']
    | call hfits => exact absurd hs (hno _ _ hfits)
  | @call front o s found hfits rest ih =>
    generalize hs : o.text ++ s = s' at h'
    cases h' with
    | nil => exact absurd (List.append_eq_nil_iff.1 hs).1 o.text_ne_nil
    | copy hno => exact absurd hs.symm (hno _ _ hfits)
    | call hfits' rest' =>
      obtain ⟨rfl, rfl⟩ := hfits.eq_of_append hfits' hs
      rw [ih rest']

/-- **The rule writes what is found,** from any place on. -/
theorem exists_searched (before : Option Char) (s : List Char) :
    ∃ found, Searched before.isNone s found ∧
      replaceFrom intrinsicCall before 0 s = found.flatMap writtenFor := by
  -- the search goes on behind a call, so the induction is on the length of the text
  induction hn : s.length using Nat.strongRecOn generalizing before s with
  | ind n ih =>
    subst hn
    cases hcall : intrinsicCall before s with
    | none =>
      cases s with
      | nil => exact ⟨[], .nil, rfl⟩
      | cons c s =>
        obtain ⟨found, hfound, hrest⟩ := ih s.length (Nat.lt_succ_self _) (some c) s rfl
        refine ⟨.inl c :: found, .copy ?_ hfound, ?_⟩
        · exact fun o back => ne_append_of_intrinsicCall hcall
        · simp only [replaceFrom, hcall, hrest]
          rfl
    | some occurrence =>
      obtain ⟨n, v⟩ := occurrence
      obtain ⟨o, back, hfits, rfl, rfl, rfl⟩ := intrinsicCall_eq_some_iff.1 hcall
      have hlength : back.length < (o.text ++ back).length := by
        have hpos := List.length_pos_of_ne_nil o.text_ne_nil
        rw [List.length_append]
        omega
      have hlast : o.text.getLast? = some '(' := by
        rw [CallSite.text, ← List.append_assoc, ← List.append_assoc, List.getLast?_concat]
      obtain ⟨found, hfound, hrest⟩ := ih back.length hlength (some '(') back rfl
      refine ⟨.inr o :: found, .call hfits hfound, ?_⟩
      rw [replaceFrom_occurrence o.text_ne_nil hcall, hlast, hrest]
      rfl

theorem Searched.exists_entry {found : List (Char ⊕ CallSite)} (h : Searched front s found)
    (ho : .inr o ∈ found) : ∃ entry ∈ intrinsics, SameFold o.name entry.1 := by
  induction h with
  | nil => cases ho
  | copy _ _ ih =>
    obtain heq | ho := List.mem_cons.1 ho
    · cases heq
    · exact ih ho
  | call hfits _ ih =>
    obtain heq | ho := List.mem_cons.1 ho
    · cases heq
      exact hfits.name
    · exact ih ho

/-! ### Members -/

/-- **The member for a name:** that of the table, unless the name is spelled with a long s. -/
theorem memberFor_eq {entry : List Char × List Char} (hentry : entry ∈ intrinsics)
    (hname : SameFold name entry.1) :
    memberFor name = if 'ſ' ∈ name then [] else entry.2 := by
  split
  · rename_i hlong
    -- the long s is its own lower case, and no name of the table has it
    have hkeys : ∀ entry ∈ intrinsics, 'ſ' ∉ entry.1 := by decide
    have hlower : 'ſ' ∈ Text.lower name := by
      have hself : Text.lowerChar 'ſ' = 'ſ' := by decide
      exact List.mem_map.2 ⟨'ſ', hlong, hself⟩
    have hlookup : intrinsics.lookup (Text.lower name) = none := by
      refine List.lookup_eq_none_iff.2 fun entry hentry => ?_
      refine bne_iff_ne.2 fun heq => hkeys entry hentry ?_
      rwa [← heq]
    rw [memberFor, hlookup, Option.getD_none]
  · rename_i hlong
    have htable : ∀ entry ∈ intrinsics, intrinsics.lookup entry.1 = some entry.2 := by decide
    have hintrinsic : IsIntrinsic name := isIntrinsic_iff_sameFold.2 ⟨entry, hentry, hname⟩
    have hkey := Text.map_keyChar_of_sameFold (isPlainWord_of_mem_intrinsics entry hentry) hname
    rw [memberFor, hintrinsic.lower_eq hlong, hkey, htable entry hentry, Option.getD_some]

/-- **What is written for calls of intrinsics.**  The search for calls has one outcome, and each
call that it finds has a name with a member in the table.  The character before the name, the member
and a parenthesis are written for it if the name has no long s, and otherwise the name is
dropped. -/
theorem intrinsics_named_unless_long_s (s : List Char) :
    ∃ found, (∀ found', Searched true s found' ↔ found' = found) ∧
      replaceAll intrinsicCall s = found.flatMap writtenFor ∧
      ∀ o : CallSite, .inr o ∈ found →
        ∃ entry ∈ intrinsics, SameFold o.name entry.1 ∧ entry.2 ≠ [] ∧
          writtenFor (.inr o) =
            o.lead.toList ++ ((if 'ſ' ∈ o.name then [] else entry.2) ++ ['(']) := by
  have hmembers : ∀ entry ∈ intrinsics, entry.2 ≠ [] := by decide
  obtain ⟨found, hfound, hwritten⟩ := exists_searched none s
  refine ⟨found, fun found' => ⟨hfound.unique, fun heq => heq ▸ hfound⟩, hwritten, ?_⟩
  intro o ho
  obtain ⟨entry, hentry, hname⟩ := hfound.exists_entry ho
  refine ⟨entry, hentry, hname, hmembers entry hentry, ?_⟩
  rw [writtenFor, CallSite.written, memberFor_eq hentry hname]

/-- A call is found, and its name is dropped. -/
theorem intrinsics_drop_long_s :
    Searched true "ſen(x)".toList [.inr ⟨none, "ſen".toList, []⟩, .inl 'x', .inl ')'] ∧
    ("sen".toList, "Math.sin".toList) ∈ intrinsics ∧ SameFold "ſen".toList "sen".toList ∧
    replaceAll intrinsicCall "ſen(x)".toList = "(x)".toList := by
  have hentry : ("sen".toList, "Math.sin".toList) ∈ intrinsics := by decide
  have hname : SameFold "ſen".toList "sen".toList := Text.equalFold_iff.1 (by decide)
  have hcall : CallSite.Fits true ⟨none, "ſen".toList, []⟩ :=
    ⟨fun _ => rfl, rfl, ⟨_, hentry, hname⟩, List.forall_mem_nil _⟩
  have hx : intrinsicCall (some '(') "x)".toList = none := by decide
  have hclose : intrinsicCall (some 'x') ")".toList = none := by decide
  refine ⟨.call hcall (.copy ?_ (.copy ?_ .nil)), hentry, hname, by decide⟩
  · exact fun o back => ne_append_of_intrinsicCall hx
  · exact fun o back => ne_append_of_intrinsicCall hclose

end Expr

end Pseudocode
