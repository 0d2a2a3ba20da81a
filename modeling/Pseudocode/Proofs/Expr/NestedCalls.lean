import Pseudocode.Proofs.Expr.Intrinsics

/-!
# Nested calls in expressions

The rules that come before the one for intrinsics make no calls, take none apart and bring none
together, so that a call is left in an expression exactly if it stood directly behind the
parenthesis of another one from the start.  Texts with a long s are left aside: a name that is
spelled with it is dropped, and borders of words do not see it.

* `Edits.call_source`, `Edits.call_target` : calls are copied.
* `Edits.nestedFrom_iff` : **calls of an edited text are nested exactly if they were before.**
* `intrinsics_replace_calls` : **a call is left exactly if the text holds nested calls.**
-/

namespace Pseudocode

namespace Expr

open Scan

variable {name blanks back s t u v x y : List Char} {r : Region} {before before' : Option Char}
  {b c : Char} {rule : Rule}

/-! ### Names without the long s -/

/-- The letters of an intrinsic are ASCII letters, unless the long s stands for one of them. -/
theorem IsIntrinsic.isWordChar (hname : IsIntrinsic name) (hlong : 'ſ' ∉ name) :
    ∀ c ∈ name, Text.isWordChar c = true := by
  have hnames : ∀ word ∈ intrinsics.map (·.1), 'k' ∉ word := by decide
  intro c hc
  obtain h | rfl | rfl := Text.isLooseWordChar_iff.1 (hname.isLooseWordChar c hc)
  · exact h
  · exact absurd hc hlong
  · exact absurd (List.mem_map_of_mem hc) (hnames _ hname)

theorem IsIntrinsic.lower_eq (hname : IsIntrinsic name) (hlong : 'ſ' ∉ name) :
    Text.lower name = name.map Text.keyChar :=
  List.map_congr_left fun c hc => Text.lowerChar_of_isWordChar (hname.isWordChar hlong c hc)

theorem memberFor_ne_nil (hname : IsIntrinsic name) (hlong : 'ſ' ∉ name) : memberFor name ≠ [] := by
  have hnames : ∀ word ∈ intrinsics.map (·.1), (intrinsics.lookup word).getD [] ≠ [] := by decide
  rw [memberFor, hname.lower_eq hlong]
  exact hnames _ hname

theorem not_startsCall_of_noWord (h : NoWord s.head?) (hlong : 'ſ' ∉ s) : ¬ StartsCall s := by
  rintro ⟨name, blanks, back, hname, -, rfl⟩
  have hletters := hname.isWordChar fun hmem => hlong (List.mem_append_left _ hmem)
  obtain ⟨c, name, rfl⟩ := List.exists_cons_of_ne_nil hname.ne_nil
  rw [List.cons_append, List.head?_cons, NoWord, Option.any_some,
    hletters c List.mem_cons_self] at h
  cases h

/-- Without the long s no name is dropped, so that only nested calls are hidden. -/
theorem hides_iff_nested (hlong : 'ſ' ∉ s) : Hides s ↔ Nested s := by
  constructor
  · rintro ⟨front, rest, rfl, hne, hr, hlead, hnested | hjoined⟩
    · exact ⟨front, rest, rfl, hne, hr, hlead, hnested⟩
    · obtain ⟨_, _, _, -, -, -, rfl, name, blanks, back, hname, -, rfl, hnil⟩ := hjoined
      exact absurd hnil (memberFor_ne_nil hname fun hmem => hlong (by simp [hmem]))
  · rintro ⟨front, rest, hs, hne, hr, hlead, hnested⟩
    exact ⟨front, rest, hs, hne, hr, hlead, .inl hnested⟩

/-! ### Pieces that are edited -/

/-- The text neither starts with the name of an intrinsic nor is the beginning of one. -/
def ApartFromNames (x : List Char) : Prop :=
  ∀ word ∈ intrinsics.map (·.1), ¬ x.map Text.keyChar <+: word ∧ ¬ word <+: x.map Text.keyChar

instance (x : List Char) : Decidable (ApartFromNames x) :=
  List.decidableBAll _ _

theorem ApartFromNames.not_startsCall (hx : ApartFromNames x) (s : List Char) :
    ¬ StartsCall (x ++ s) := by
  rintro ⟨name, blanks, back, hname, -, heq⟩
  obtain ⟨hx, hname⟩ := hx _ hname
  obtain ⟨z, rfl, -⟩ | ⟨z, rfl, -⟩ := List.append_eq_append_iff.1 heq
  · exact hx ⟨z.map Text.keyChar, by rw [List.map_append]⟩
  · exact hname ⟨z.map Text.keyChar, by rw [List.map_append]⟩

theorem written_apartFromNames : ∀ v ∈ written, ∀ i ∈ List.range v.length,
    leads (v.take i).getLast? = true → ApartFromNames (v.drop i) := by decide +kernel

theorem written_chars : ∀ v ∈ written, QuoteFree v ∧ 'ſ' ∉ v := by decide +kernel

/-- The words other than names of intrinsics that are replaced, in lower case. -/
def otherWords : List (List Char) := ["y".toList, "o".toList] ++ wholeWords

theorem otherWords_apart : ∀ w ∈ otherWords, ∀ word ∈ intrinsics.map (·.1),
    ¬ w <+: word ∧ ¬ word <+: w := by decide

/-- A piece that is edited consists of a word other than the name of an intrinsic, or of none, and
symbols. -/
theorem Edit.shape (h : Edit rule u v) (hrule : rule ≠ .intrinsics) :
    ∃ w x, u = w ++ x ∧ (w = [] ∨ w.map Text.keyChar ∈ otherWords) ∧
      ∀ c ∈ x, IsSymbol c ∧ c ≠ '.' := by
  have hspace : ∀ c, Text.isSpace c = true → IsSymbol c ∧ c ≠ '.' := by
    refine fun c hc => ⟨isSymbol_of_isSpace hc, ?_⟩
    rintro rfl
    cases hc
  have hblank : ∀ c, Text.isBlank c = true → IsSymbol c ∧ c ≠ '.' := fun c hc =>
    hspace c (Text.isSpace_of_isBlank hc)
  have hsigns : ∀ e ∈ signEdits, IsSymbols e.2.1 ∧ '.' ∉ e.2.1 := by decide
  have hletters : ∀ e ∈ letterEdits, e.2.1.map Text.keyChar ∈ otherWords := by decide
  have hwhole : ∀ word ∈ wholeWords, word ∈ otherWords := fun word => List.mem_append_right _
  cases h with
  | sign h =>
    obtain ⟨hsymbols, hpoint⟩ := hsigns _ h
    exact ⟨[], u, rfl, .inl rfl, fun c hc => ⟨hsymbols.2 c hc, fun heq => hpoint (heq ▸ hc)⟩⟩
  | letter h => exact ⟨u, [], by simp, .inr (hletters _ h), List.forall_mem_nil _⟩
  | word h =>
    exact ⟨u, [], by simp, .inr (hwhole _ (wordEdits_wholeWords _ h)), List.forall_mem_nil _⟩
  | @negation w blanks hw hblanks =>
    exact ⟨w, blanks, rfl, .inr (hw ▸ by decide), fun c hc => hblank c (hblanks c hc)⟩
  | @random w blanks spaces hw hblanks hspaces =>
    refine ⟨w, blanks ++ '(' :: spaces, rfl, .inr (hw ▸ by decide), ?_⟩
    refine List.forall_mem_append.2 ⟨fun c hc => hblank c (hblanks c hc), ?_⟩
    exact List.forall_mem_cons.2 ⟨by decide, fun c hc => hspace c (hspaces c hc)⟩
  | @closing spaces hspaces =>
    refine ⟨[], spaces ++ [')'], rfl, .inl rfl, List.forall_mem_append.2 ⟨?_, ?_⟩⟩
    · exact fun c hc => hspace c (hspaces c hc)
    · exact List.forall_mem_singleton.2 (by decide)
  | call => exact absurd rfl hrule

/-- No call starts in the piece, whatever stands around it. -/
def NoCallIn (u : List Char) : Prop :=
  ∀ front c back s before, u = front ++ c :: back → leads (front.getLast?.or before) = true →
    ¬ StartsCall (c :: (back ++ s))

theorem NoCallIn.not_startsCall (h : NoCallIn u) (hu : u ≠ []) (s : List Char) :
    ¬ StartsCall (u ++ s) := by
  obtain ⟨c, u, rfl⟩ := List.exists_cons_of_ne_nil hu
  exact h [] c u s none rfl rfl

theorem NoCallIn.nestedFrom_append (h : NoCallIn u) (hquote : QuoteFree u) :
    NestedFrom r before (u ++ s) ↔ NestedFrom r (u.getLast?.or before) s :=
  somewhereFrom_append hquote fun front c back hcut hplace =>
    h front c back s before hcut hplace.2.1 hplace.2.2.startsCall

theorem written_noCall (hv : v ∈ written) : NoCallIn v := by
  rintro front c back s before rfl hlead
  have hapart := written_apartFromNames _ hv front.length (by simp)
  rw [List.take_left, List.drop_left] at hapart
  refine (hapart ?_).not_startsCall s
  cases hlast : front.getLast? with
  | none => rfl
  | some d => rwa [hlast] at hlead

theorem isLooseWordChar_of_otherWord (hw : x.map Text.keyChar ∈ otherWords) :
    ∀ c ∈ x, Text.isLooseWordChar c = true := by
  have hwords : ∀ word ∈ otherWords, word.all Text.isWordChar = true := by decide
  exact fun c hc => List.all_eq_true.1 (hwords _ hw) _ (List.mem_map_of_mem hc)

theorem Edit.noCall (h : Edit rule u v) (hrule : rule ≠ .intrinsics) : NoCallIn u := by
  obtain ⟨w, x, rfl, hw, hx⟩ := h.shape hrule
  have hsymbols : ∀ c ∈ x, ∀ s, ¬ StartsCall (c :: s) := fun c hc s =>
    not_startsCall_of_head? (Text.isLooseWordChar_of_isNameChar (hx c hc).1.1)
  intro front c back s before hcut hlead
  obtain ⟨z, -, rfl⟩ | ⟨z, rfl, hz⟩ := List.append_eq_append_iff.1 hcut
  · exact hsymbols c (by simp) _
  · cases z with
    | nil =>
      obtain rfl : c :: back = x := hz
      exact hsymbols c List.mem_cons_self _
    | cons d z =>
      obtain ⟨rfl, rfl⟩ := List.cons_eq_cons.1 hz
      have hw := hw.resolve_left (by simp)
      cases hlast : front.getLast? with
      | none =>
        -- the place is the front of the word
        obtain rfl := List.getLast?_eq_none_iff.1 hlast
        have hapart : ApartFromNames (c :: z) := otherWords_apart _ hw
        simpa using hapart.not_startsCall (x ++ s)
      | some d =>
        -- the place is inside the word
        have hd := isLooseWordChar_of_otherWord hw d (by simp [List.mem_of_getLast? hlast])
        rw [hlast, Option.some_or, not_leads_of_isLooseWordChar hd] at hlead
        cases hlead

theorem Edit.quoteFree (h : Edit rule u v) (hrule : rule ≠ .intrinsics) : QuoteFree u := by
  obtain ⟨w, x, rfl, hw, hx⟩ := h.shape hrule
  refine QuoteFree.append (fun c hc => ?_) fun c hc => (hx c hc).1.2
  have hw := hw.resolve_left (List.ne_nil_of_mem hc)
  exact isQuote_of_isLooseWordChar (isLooseWordChar_of_otherWord hw c hc)

/-- Where a piece ends with no character of a name, a call may stand behind it, and also behind what
is written for it. -/
theorem Edit.leads_getLast? (h : Edit rule u v) (hrule : rule ≠ .intrinsics)
    (hu : u.getLast?.any Text.isNameChar = false) :
    leads u.getLast? = true ∧ leads v.getLast? = true := by
  have hsigns : ∀ e ∈ signEdits, leads e.2.2.getLast? = true := by decide
  have hletters : ∀ e ∈ letterEdits, leads e.2.2.getLast? = true := by decide
  constructor
  · obtain ⟨w, x, rfl, hw, hx⟩ := h.shape hrule
    cases hlast : (w ++ x).getLast? with
    | none => rfl
    | some c =>
      rw [hlast, Option.any_some] at hu
      have hpoint : c ≠ '.' := by
        obtain hc | hc := List.mem_append.1 (List.mem_of_getLast? hlast)
        · have hw := hw.resolve_left (List.ne_nil_of_mem hc)
          rw [Text.isNameChar_of_isLooseWordChar (isLooseWordChar_of_otherWord hw c hc)] at hu
          cases hu
        · exact (hx c hc).2
      simp [leads, hpoint, Text.isLooseWordChar_of_isNameChar hu]
  · cases h with
    | sign h => exact hsigns _ h
    | letter h => exact hletters _ h
    | word h =>
      have hk := isKeyword_of_mem_wholeWords (wordEdits_wholeWords _ h) rfl
      obtain ⟨c, hc⟩ := Option.isSome_iff_exists.1 (List.getLast?_isSome.2 hk.ne_nil)
      rw [hc, Option.any_some, hk.isNameChar c (List.mem_of_getLast? hc)] at hu
      cases hu
    | negation => decide
    | random => decide
    | closing => decide
    | call => exact absurd rfl hrule

/-! ### Blanks and the parenthesis -/

theorem Edit.written_ne_blanks (h : Edit rule u v) (hrule : rule ≠ .intrinsics)
    (hblanks : ∀ c ∈ blanks, Text.isBlank c = true) : v ++ t ≠ blanks ++ '(' :: y := by
  have hwritten : ∀ v ∈ written, v.head?.any Text.isBlank = false := by decide
  have htables : ∀ e ∈ signEdits ++ letterEdits ++ wordEdits, e.2.2.head? ≠ some '(' := by
    decide
  intro ht
  cases blanks with
  | cons c blanks =>
    have hblank := hwritten v h.mem_written
    rw [h.head?_written ht, Option.any_some, hblanks c List.mem_cons_self] at hblank
    cases hblank
  | nil =>
    have hhead := h.head?_written ht
    cases h with
    | sign h => exact htables _ (List.mem_append_left _ (List.mem_append_left _ h)) hhead
    | letter h => exact htables _ (List.mem_append_left _ (List.mem_append_right _ h)) hhead
    | word h => exact htables _ (List.mem_append_right _ h) hhead
    | negation => cases hhead
    | random => cases hhead
    | closing => cases hhead
    | call => exact absurd rfl hrule

/-- Blanks in front of an opening parenthesis are not edited, nor is the parenthesis. -/
theorem Edit.ne_blanks (h : Edit rule u v) (hblanks : ∀ c ∈ blanks, Text.isBlank c = true) :
    u ++ s ≠ blanks ++ '(' :: y := by
  have hsigns : ∀ e ∈ signEdits, e.2.1.head?.any (fun c => Text.isBlank c || c == '(') = false := by
    decide
  have hspaces : ∀ c ∈ blanks, Text.isSpace c = true := fun c hc =>
    Text.isSpace_of_isBlank (hblanks c hc)
  intro heq
  have hhead := congrArg List.head? heq
  rw [List.head?_append_of_ne_nil _ h.ne_nil] at hhead
  obtain ⟨w, x, hw, rfl⟩ | hsign | ⟨spaces, hclosing, rfl, -⟩ := h.starts
  · have hname := hw.head?_append x
    rw [hhead] at hname
    cases blanks with
    | nil => exact absurd hname (by decide : ¬ Text.isNameChar '(' = true)
    | cons c blanks =>
      rw [List.cons_append, List.head?_cons, Option.any_some,
        Text.isNameChar_of_isSpace (hspaces c List.mem_cons_self)] at hname
      cases hname
  · have hno := hsigns _ hsign
    rw [hhead] at hno
    cases blanks with
    | nil => cases hno
    | cons c blanks => simp [hblanks c List.mem_cons_self] at hno
  · rw [List.append_assoc] at heq
    obtain ⟨-, hparen⟩ := Text.run_append_inj hclosing hspaces rfl rfl heq
    cases hparen

/-! ### Calls are copied -/

namespace Edits

theorem letters_source (h : Edits rule (some b) s (x ++ y)) (hb : Text.isWordChar b = true)
    (hx : ∀ c ∈ x, Text.isWordChar c = true) :
    ∃ before s', s = x ++ s' ∧ Edits rule before s' y := by
  induction x generalizing b s with
  | nil => exact ⟨some b, s, rfl, h⟩
  | cons c x ih =>
    obtain ⟨hc, hx⟩ := List.forall_mem_cons.1 hx
    -- the word goes on here, so a sign would be written
    obtain ⟨s, rfl, hrest⟩ := h.of_cons_target fun u v t hedit hleft ht => by
      have hsign := hedit.head?_of_sign (hleft.resolve_left (by simp [NoWord, hb]))
      rw [hedit.head?_written ht, Option.any_some, Text.isNameChar_of_isWordChar hc] at hsign
      cases hsign
    obtain ⟨before, s', rfl, hend⟩ := ih hrest hc hx
    exact ⟨before, s', rfl, hend⟩

theorem letters_target (h : Edits rule (some b) (x ++ s) t) (hb : Text.isWordChar b = true)
    (hx : ∀ c ∈ x, Text.isWordChar c = true) :
    ∃ before t', t = x ++ t' ∧ Edits rule before s t' := by
  induction x generalizing b t with
  | nil => exact ⟨some b, t, rfl, h⟩
  | cons c x ih =>
    obtain ⟨hc, hx⟩ := List.forall_mem_cons.1 hx
    obtain ⟨t, rfl, hrest⟩ := h.of_cons_source fun u v s hedit hleft hs => by
      have hsign := hleft.resolve_left (by simp [NoWord, hb])
      have hhead := congrArg List.head? hs
      rw [List.head?_append_of_ne_nil _ hedit.ne_nil] at hhead
      rw [hhead, List.head?_cons, Option.any_some, Text.isNameChar_of_isWordChar hc] at hsign
      cases hsign
    obtain ⟨before, t', rfl, hend⟩ := ih hrest hc hx
    exact ⟨before, t', rfl, hend⟩

theorem blanks_source (h : Edits rule before s (blanks ++ '(' :: y)) (hrule : rule ≠ .intrinsics)
    (hblanks : ∀ c ∈ blanks, Text.isBlank c = true) :
    ∃ back, s = blanks ++ '(' :: back ∧ Edits rule (some '(') back y := by
  induction blanks generalizing before s with
  | nil => exact h.of_cons_target fun u v t hedit _ => hedit.written_ne_blanks hrule hblanks
  | cons c blanks ih =>
    obtain ⟨s, rfl, hrest⟩ := h.of_cons_target fun u v t hedit _ =>
      hedit.written_ne_blanks hrule hblanks
    obtain ⟨back, rfl, hback⟩ := ih hrest (List.forall_mem_cons.1 hblanks).2
    exact ⟨back, rfl, hback⟩

theorem blanks_target (h : Edits rule before (blanks ++ '(' :: back) t)
    (hblanks : ∀ c ∈ blanks, Text.isBlank c = true) :
    ∃ y, t = blanks ++ '(' :: y ∧ Edits rule (some '(') back y := by
  induction blanks generalizing before t with
  | nil => exact h.of_cons_source fun u v s hedit _ => hedit.ne_blanks hblanks
  | cons c blanks ih =>
    obtain ⟨t, rfl, hrest⟩ := h.of_cons_source fun u v s hedit _ => hedit.ne_blanks hblanks
    obtain ⟨y, rfl, hback⟩ := ih hrest (List.forall_mem_cons.1 hblanks).2
    exact ⟨y, rfl, hback⟩

/-- **A call of an edited text stood there before.** -/
theorem call_source (h : Edits rule before s (name ++ (blanks ++ '(' :: y)))
    (hrule : rule ≠ .intrinsics) (hname : IsIntrinsic name) (hlong : 'ſ' ∉ name)
    (hblanks : ∀ c ∈ blanks, Text.isBlank c = true) :
    ∃ back, s = name ++ (blanks ++ '(' :: back) ∧ Edits rule (some '(') back y := by
  have hstarts : StartsCall (name ++ (blanks ++ '(' :: y)) := ⟨name, blanks, y, hname, hblanks, rfl⟩
  have hletters := hname.isWordChar hlong
  obtain ⟨c, x, rfl⟩ := List.exists_cons_of_ne_nil hname.ne_nil
  obtain ⟨hc, hx⟩ := List.forall_mem_cons.1 hletters
  obtain ⟨s, rfl, hrest⟩ := h.of_cons_target fun u v t hedit _ ht => by
    have hwritten := hedit.mem_written
    exact (written_noCall hwritten).not_startsCall (written_ne_nil v hwritten) t (ht ▸ hstarts)
  obtain ⟨_, s, rfl, hend⟩ := hrest.letters_source hc hx
  obtain ⟨back, rfl, hback⟩ := hend.blanks_source hrule hblanks
  exact ⟨back, rfl, hback⟩

/-- **A call is copied.** -/
theorem call_target (h : Edits rule before (name ++ (blanks ++ '(' :: back)) t)
    (hrule : rule ≠ .intrinsics) (hname : IsIntrinsic name) (hlong : 'ſ' ∉ name)
    (hblanks : ∀ c ∈ blanks, Text.isBlank c = true) :
    ∃ y, t = name ++ (blanks ++ '(' :: y) ∧ Edits rule (some '(') back y := by
  have hstarts : StartsCall (name ++ (blanks ++ '(' :: back)) :=
    ⟨name, blanks, back, hname, hblanks, rfl⟩
  have hletters := hname.isWordChar hlong
  obtain ⟨c, x, rfl⟩ := List.exists_cons_of_ne_nil hname.ne_nil
  obtain ⟨hc, hx⟩ := List.forall_mem_cons.1 hletters
  obtain ⟨t, rfl, hrest⟩ := h.of_cons_source fun u v s hedit _ hs =>
    (hedit.noCall hrule).not_startsCall hedit.ne_nil s (hs ▸ hstarts)
  obtain ⟨_, t, rfl, hend⟩ := hrest.letters_target hc hx
  obtain ⟨y, rfl, hback⟩ := hend.blanks_target hblanks
  exact ⟨y, rfl, hback⟩

theorem notMem_long (h : Edits rule before s t) (hlong : 'ſ' ∉ s) : 'ſ' ∉ t := by
  induction h with
  | nil => exact hlong
  | copy c _ ih =>
    rw [List.mem_cons, not_or] at hlong ⊢
    exact ⟨hlong.1, ih hlong.2⟩
  | edit h _ _ _ ih =>
    rw [List.mem_append, not_or] at hlong ⊢
    exact ⟨(written_chars _ h.mem_written).2, ih hlong.2⟩

theorem startsCall_iff (h : Edits rule before s t) (hrule : rule ≠ .intrinsics)
    (hlong : 'ſ' ∉ s) : StartsCall t ↔ StartsCall s := by
  have hlong' := h.notMem_long hlong
  constructor
  · rintro ⟨name, blanks, y, hname, hblanks, rfl⟩
    obtain ⟨back, rfl, -⟩ := h.call_source hrule hname (by simp_all) hblanks
    exact ⟨name, blanks, back, hname, hblanks, rfl⟩
  · rintro ⟨name, blanks, back, hname, hblanks, rfl⟩
    obtain ⟨y, rfl, -⟩ := h.call_target hrule hname (by simp_all) hblanks
    exact ⟨name, blanks, y, hname, hblanks, rfl⟩

theorem startsNested_iff (h : Edits rule before s t) (hrule : rule ≠ .intrinsics)
    (hlong : 'ſ' ∉ s) : StartsNested t ↔ StartsNested s := by
  have hlong' := h.notMem_long hlong
  constructor
  · rintro ⟨name, blanks, y, hname, hblanks, rfl, hy⟩
    obtain ⟨back, rfl, hback⟩ := h.call_source hrule hname (by simp_all) hblanks
    exact ⟨name, blanks, back, hname, hblanks, rfl, (hback.startsCall_iff hrule (by simp_all)).1 hy⟩
  · rintro ⟨name, blanks, back, hname, hblanks, rfl, hback⟩
    obtain ⟨y, rfl, hy⟩ := h.call_target hrule hname (by simp_all) hblanks
    exact ⟨name, blanks, y, hname, hblanks, rfl, (hy.startsCall_iff hrule (by simp_all)).2 hback⟩

/-- **Calls of an edited text are nested exactly if they were before.**  The text follows `before`,
and what is made of it follows `before'`. -/
theorem nestedFrom_iff (h : Edits rule before s t) (hrule : rule ≠ .intrinsics) (hlong : 'ſ' ∉ s)
    (hbefore : leads before' = leads before ∨ ¬ StartsCall s) :
    NestedFrom r before' t ↔ NestedFrom r before s := by
  induction h generalizing r before' with
  | nil => simp [NestedFrom]
  | @copy before c s t rest ih =>
    have hlong' : 'ſ' ∉ s := fun hmem => hlong (List.mem_cons_of_mem _ hmem)
    have hfront : CallPlace StartsNested r before' (c :: t) ↔
        CallPlace StartsNested r before (c :: s) := by
      have hcopy : Edits rule before (c :: s) (c :: t) := .copy c rest
      rw [CallPlace, CallPlace, hcopy.startsNested_iff hrule hlong]
      obtain hsame | hno := hbefore
      · rw [hsame]
      · have hno : ¬ StartsNested (c :: s) := fun h => hno h.startsCall
        simp [hno]
    rw [NestedFrom, somewhereFrom_cons, somewhereFrom_cons]
    exact or_congr hfront (ih hlong' (.inl rfl))
  | @edit before u v s t h hleft hright rest ih =>
    have hlong' : 'ſ' ∉ s := fun hmem => hlong (List.mem_append_right _ hmem)
    have hwritten := h.mem_written
    have hlast : ∀ {x : List Char} {b : Option Char}, x ≠ [] → x.getLast?.or b = x.getLast? :=
      fun hx => Option.or_of_isSome (List.getLast?_isSome.2 hx)
    have hborder : leads (v.getLast?.or before') = leads u.getLast? ∨ ¬ StartsCall s := by
      obtain hs | hu := hright
      · exact .inr (not_startsCall_of_noWord hs hlong')
      · obtain ⟨hu, hv⟩ := h.leads_getLast? hrule hu
        exact .inl (by rw [hlast (written_ne_nil v hwritten), hu, hv])
    calc NestedFrom r before' (v ++ t)
        ↔ NestedFrom r (v.getLast?.or before') t :=
          (written_noCall hwritten).nestedFrom_append (written_chars v hwritten).1
      _ ↔ NestedFrom r u.getLast? s := ih hlong' hborder
      _ ↔ NestedFrom r before (u ++ s) := by
          rw [(h.noCall hrule).nestedFrom_append (h.quoteFree hrule), hlast h.ne_nil]

end Edits

/-! ### Expressions -/

/-- Rules other than the one for intrinsics nest no calls and take no nested ones apart. -/
theorem nested_iff_of_edits {rules : List Rule}
    (h : Relation.ReflTransGen (EditsByOneOf rules) s t) (hrules : .intrinsics ∉ rules)
    (hlong : 'ſ' ∉ s) : 'ſ' ∉ t ∧ (Nested t ↔ Nested s) := by
  induction h with
  | refl => exact ⟨hlong, .rfl⟩
  | tail _ h ih =>
    obtain ⟨rule, hrule, h⟩ := h
    have hrule : rule ≠ .intrinsics := fun heq => hrules (heq ▸ hrule)
    exact ⟨h.notMem_long ih.1, (h.nestedFrom_iff hrule ih.1 (.inl rfl)).trans ih.2⟩

/-- The rule for intrinsics comes last, and leaves what it is given hides. -/
theorem hasCall_expression_iff (s : List Char) :
    HasCall (expression s) ↔ Hides (applyRules expressionRules.dropLast s) :=
  hasCall_intrinsics_iff _

/-- **A call is left exactly if the text hides one.**  In an expression without the long s that is a
call directly behind the parenthesis of another one, and every other call is replaced, however deep
it stands in the arguments of others.  The rule leaves its own output as it is exactly if no call is
left. -/
theorem intrinsics_replace_calls (s : List Char) :
    (HasCall (Rule.intrinsics.apply s) ↔ Hides s) ∧
      (Rule.intrinsics.apply (Rule.intrinsics.apply s) = Rule.intrinsics.apply s ↔ ¬ Hides s) ∧
      (HasCall (expression s) ↔ Hides (applyRules expressionRules.dropLast s)) ∧
      ('ſ' ∉ s → (HasCall (expression s) ↔ Nested s) ∧
        (Rule.intrinsics.apply (expression s) = expression s ↔ ¬ Nested s)) := by
  refine ⟨hasCall_intrinsics_iff s, ?_, hasCall_expression_iff s, fun hlong => ?_⟩
  · rw [intrinsics_eq_self_iff, hasCall_intrinsics_iff]
  · obtain ⟨hlong', hnested⟩ :=
      nested_iff_of_edits (applyRules_edits expressionRules.dropLast s) (by decide) hlong
    have hcall : HasCall (expression s) ↔ Nested s := by
      rw [hasCall_expression_iff, hides_iff_nested hlong', hnested]
    exact ⟨hcall, by rw [intrinsics_eq_self_iff, hcall]⟩

/-- Calls in the arguments of others are replaced, and one in a literal is none. -/
theorem intrinsics_replace_inner_calls :
    let s := "Raiz( ABS (x) + Sen(NO ln(y))) MOD 2 + \"raiz(abs(x))\"".toList
    'ſ' ∉ s ∧ ¬ Nested s ∧ ¬ HasCall (expression s) ∧
      Rule.intrinsics.apply (expression s) = expression s ∧
      expression s =
        "Math.sqrt( Math.abs(x) + Math.sin(!Math.log(y))) % 2 + \"raiz(abs(x))\"".toList := by
  intro s
  have hlong : 'ſ' ∉ s := by decide +revert
  have hno : ¬ Nested s := by decide +revert +kernel
  obtain ⟨hcall, hself⟩ := (intrinsics_replace_calls s).2.2.2 hlong
  exact ⟨hlong, hno, fun h => hno (hcall.1 h), hself.2 hno, by decide +revert +kernel⟩

/-- The parenthesis of a call is the character before the call directly behind it, and no two calls
can take it. -/
theorem directly_nested_call_is_left :
    let s := "raiz(abs(x))".toList
    expression s = "Math.sqrt(abs(x))".toList ∧ HasCall (expression s) ∧
      Rule.intrinsics.apply (expression s) = "Math.sqrt(Math.abs(x))".toList := by
  decide +kernel

end Expr

end Pseudocode
