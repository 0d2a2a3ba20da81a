import Pseudocode.Proofs.Expr.Edits

/-!
# How the rules rewrite a text

What is not copied is a keyword between two borders of ASCII words, or a run of symbols that can
stand in no name; and quotes are always copied.  `Rewrites` says this much and no more.

* `Rewrites` : a text and what is made of it, piece by piece.
* `Edits.rewrites` : edits rewrite a text in this way.
* `applyRules_rewrites` : **so do all rules.**
-/

namespace Pseudocode

namespace Expr

open Scan

/-- The words that the rules replace in any letter case, in lower case. -/
def keywords : List (List Char) := wholeWords ++ intrinsics.map (·.1)

/-- The text is a word that the rules replace: the capital `Y` or `O`, or one of the others in any
letter case. -/
def IsKeyword (w : List Char) : Prop := w = ['Y'] ∨ w = ['O'] ∨ w.map Text.keyChar ∈ keywords

instance (w : List Char) : Decidable (IsKeyword w) :=
  inferInstanceAs (Decidable (_ ∨ _ ∨ _))

/-- A character that can stand in no name and delimits no literal. -/
def IsSymbol (c : Char) : Prop := Text.isNameChar c = false ∧ (role c).isQuote = false

instance (c : Char) : Decidable (IsSymbol c) := inferInstanceAs (Decidable (_ ∧ _))

/-- A run of such characters. -/
def IsSymbols (u : List Char) : Prop := u ≠ [] ∧ ∀ c ∈ u, IsSymbol c

instance (u : List Char) : Decidable (IsSymbols u) :=
  haveI := List.decidableBAll IsSymbol u
  inferInstanceAs (Decidable (_ ∧ _))

/-- A text and what is made of it, piece by piece; `before` is the character before the text.  A
piece is copied, or it consists of symbols and is replaced by symbols, or it is a keyword between
borders of words and is replaced by something without quotes. -/
inductive Rewrites : (before : Option Char) → List Char → List Char → Prop
  | nil {before : Option Char} : Rewrites before [] []
  | copy {before : Option Char} (c : Char) {s t : List Char} (rest : Rewrites (some c) s t) :
    Rewrites before (c :: s) (c :: t)
  | symbols {before : Option Char} {u v s t : List Char} (hu : IsSymbols u) (hv : IsSymbols v)
    (rest : Rewrites u.getLast? s t) : Rewrites before (u ++ s) (v ++ t)
  | keyword {before : Option Char} {k v s t : List Char} (hk : IsKeyword k)
    (hbefore : NoWord before) (hafter : NoWord s.head?) (hv : QuoteFree v)
    (rest : Rewrites k.getLast? s t) : Rewrites before (k ++ s) (v ++ t)

/-! ### Keywords -/

theorem IsKeyword.ne_nil {w : List Char} (h : IsKeyword w) : w ≠ [] := by
  rintro rfl
  exact absurd h (by decide)

theorem keywords_isWordChar : ∀ word ∈ keywords, word.all Text.isWordChar = true := by decide

theorem IsKeyword.isNameChar {w : List Char} (h : IsKeyword w) :
    ∀ c ∈ w, Text.isNameChar c = true := by
  obtain rfl | rfl | h := h
  · exact List.all_eq_true.1 (by decide)
  · exact List.all_eq_true.1 (by decide)
  · intro c hc
    have hword := List.all_eq_true.1 (keywords_isWordChar _ h)
    exact Text.isNameChar_of_isLooseWordChar (hword _ (List.mem_map_of_mem hc))

theorem IsKeyword.quoteFree {w : List Char} (h : IsKeyword w) : QuoteFree w :=
  quoteFree_of_isNameChar h.isNameChar

theorem isKeyword_of_mem_wholeWords {word read : List Char} (hword : word ∈ wholeWords)
    (hread : read.map Text.keyChar = word) : IsKeyword read :=
  .inr (.inr (hread ▸ List.mem_append_left _ hword))

theorem isKeyword_of_mem_intrinsics {name : List Char}
    (hname : name.map Text.keyChar ∈ intrinsics.map (·.1)) : IsKeyword name :=
  .inr (.inr (List.mem_append_right _ hname))

theorem IsKeyword.head?_append {w : List Char} (hw : IsKeyword w) (x : List Char) :
    (w ++ x).head?.any Text.isNameChar = true := by
  obtain ⟨c, w, rfl⟩ := List.exists_cons_of_ne_nil hw.ne_nil
  exact hw.isNameChar c List.mem_cons_self

theorem IsKeyword.noWord_left {w x : List Char} {before : Option Char} (hw : IsKeyword w)
    (h : NoWord before ∨ (w ++ x).head?.any Text.isNameChar = false) : NoWord before := by
  refine h.resolve_right fun hhead => ?_
  rw [hw.head?_append] at hhead
  cases hhead

theorem IsKeyword.noWord_right {w : List Char} {after : Option Char} (hw : IsKeyword w)
    (h : NoWord after ∨ w.getLast?.any Text.isNameChar = false) : NoWord after := by
  refine h.resolve_right fun hlast => ?_
  obtain ⟨w, c, rfl⟩ := List.eq_nil_or_concat w |>.resolve_left hw.ne_nil
  exact absurd (hw.isNameChar c (by simp)) (by simpa using hlast)

/-! ### Symbols -/

theorem isSymbol_of_isSpace {c : Char} (h : Text.isSpace c = true) : IsSymbol c := by
  refine ⟨Text.isNameChar_of_isSpace h, ?_⟩
  exact quoteFree_of_forall (p := Text.isSpace) rfl rfl (s := [c]) (by simpa using h) c (by simp)

theorem IsSymbols.noWord_head? {u : List Char} (hu : IsSymbols u) (s : List Char) :
    NoWord (u ++ s).head? := by
  obtain ⟨c, u, rfl⟩ := List.exists_cons_of_ne_nil hu.1
  exact .of_isNameChar_eq_false (hu.2 c List.mem_cons_self).1

theorem IsSymbols.noWord_getLast? {u : List Char} (hu : IsSymbols u) : NoWord u.getLast? := by
  cases hlast : u.getLast? with
  | none => rfl
  | some c => exact .of_isNameChar_eq_false (hu.2 c (List.mem_of_getLast? hlast)).1

theorem Edit.starts {rule : Rule} {u v : List Char} (h : Edit rule u v) :
    (∃ w x, IsKeyword w ∧ u = w ++ x) ∨ (rule, u, v) ∈ signEdits ∨
      ∃ spaces, (∀ c ∈ spaces, Text.isSpace c = true) ∧ u = spaces ++ [')'] ∧ v = "))".toList := by
  have hletters : ∀ e ∈ letterEdits, IsKeyword e.2.1 := by decide
  cases h with
  | sign h => exact .inr (.inl h)
  | letter h => exact .inl ⟨u, [], hletters _ h, by simp⟩
  | word h =>
    exact .inl ⟨u, [], isKeyword_of_mem_wholeWords (wordEdits_wholeWords _ h) rfl, by simp⟩
  | negation hw => exact .inl ⟨_, _, isKeyword_of_mem_wholeWords (by decide) hw, rfl⟩
  | random hw => exact .inl ⟨_, _, isKeyword_of_mem_wholeWords (by decide) hw, rfl⟩
  | closing hspaces => exact .inr (.inr ⟨_, hspaces, rfl, rfl⟩)
  | call hw => exact .inl ⟨_, _, isKeyword_of_mem_intrinsics hw, rfl⟩

theorem Edit.head?_of_sign {rule : Rule} {u v : List Char} (h : Edit rule u v)
    (hu : u.head?.any Text.isNameChar = false) : v.head?.any Text.isNameChar = false := by
  have hsigns : ∀ e ∈ signEdits, e.2.2.head?.any Text.isNameChar = false := by decide
  obtain ⟨w, x, hw, rfl⟩ | hsign | ⟨_, -, -, rfl⟩ := h.starts
  · rw [hw.head?_append] at hu
    cases hu
  · exact hsigns _ hsign
  · decide

namespace Rewrites

variable {before before' : Option Char} {s t : List Char}

/-- The character before a text matters only where a word may go on. -/
theorem of_before (h : Rewrites before s t)
    (hbefore : NoWord before' ∨ s.head?.any Text.isNameChar = false) : Rewrites before' s t := by
  cases h with
  | nil => exact nil
  | copy c rest => exact copy c rest
  | symbols hu hv rest => exact symbols hu hv rest
  | keyword hk _ hafter hv rest =>
    obtain hbefore | hhead := hbefore
    · exact keyword hk hbefore hafter hv rest
    · obtain ⟨c, k, hcons⟩ := List.exists_cons_of_ne_nil hk.ne_nil
      have hc := hk.isNameChar c (by simp [hcons])
      simp [hcons, hc] at hhead

end Rewrites

/-! ### Edits -/

theorem memberFor_quoteFree (name : List Char) : QuoteFree (memberFor name) :=
  alphabet_quoteFree.mono (memberFor_subset name)

/-- A keyword that is called is replaced, and the spaces on both sides of its parenthesis are
dropped. -/
theorem call_rewrites {before : Option Char} {name blanks back v t : List Char}
    (hname : IsKeyword name) (hblanks : ∀ c ∈ blanks, Text.isBlank c = true) (spaces : List Char)
    (hspaces : ∀ c ∈ spaces, Text.isSpace c = true) (hbefore : NoWord before) (hv : QuoteFree v)
    (h : Rewrites none back t) :
    Rewrites before (name ++ (blanks ++ '(' :: (spaces ++ back))) (v ++ '(' :: t) := by
  have hsymbols : IsSymbols (blanks ++ '(' :: spaces) := by
    refine ⟨by simp, List.forall_mem_append.2 ⟨fun c hc => ?_, List.forall_mem_cons.2 ⟨?_, ?_⟩⟩⟩
    · exact isSymbol_of_isSpace (Text.isSpace_of_isBlank (hblanks c hc))
    · exact (by decide : IsSymbol '(')
    · exact fun c hc => isSymbol_of_isSpace (hspaces c hc)
  have hopening : blanks ++ '(' :: (spaces ++ back) = (blanks ++ '(' :: spaces) ++ back := by simp
  rw [hopening]
  refine .keyword hname hbefore (hsymbols.noWord_head? back) hv ?_
  exact .symbols (v := ['(']) hsymbols (by decide) (h.of_before (.inl hsymbols.noWord_getLast?))

/-- A negation with blanks behind it is dropped, and the blanks become the sign. -/
theorem negation_rewrites {before : Option Char} {w blanks s t : List Char}
    (hw : w.map Text.keyChar = "no".toList) (hblanks : ∀ c ∈ blanks, Text.isBlank c = true)
    (hbefore : NoWord before)
    (hright : NoWord s.head? ∨ (w ++ blanks).getLast?.any Text.isNameChar = false)
    (h : Rewrites (w ++ blanks).getLast? s t) :
    Rewrites before (w ++ blanks ++ s) ("!".toList ++ t) := by
  have hk : IsKeyword w := isKeyword_of_mem_wholeWords (by decide) hw
  by_cases hne : blanks = []
  · subst hne
    rw [List.append_nil] at hright h ⊢
    exact .keyword hk hbefore (hk.noWord_right hright) (by decide) h
  · have hsymbols : IsSymbols blanks := ⟨hne, fun c hc =>
      isSymbol_of_isSpace (Text.isSpace_of_isBlank (hblanks c hc))⟩
    rw [List.getLast?_append_of_ne_nil _ hne] at h
    rw [List.append_assoc]
    exact .keyword (v := []) hk hbefore (hsymbols.noWord_head? s) (List.forall_mem_nil _)
      (.symbols (v := "!".toList) hsymbols (by decide) h)

/-- **Edits rewrite a text.** -/
theorem Edits.rewrites {rule : Rule} {before : Option Char} {s t : List Char}
    (h : Edits rule before s t) : Rewrites before s t := by
  have hsigns : ∀ e ∈ signEdits, IsSymbols e.2.1 ∧ IsSymbols e.2.2 := by decide
  have hletters : ∀ e ∈ letterEdits, IsKeyword e.2.1 ∧ QuoteFree e.2.2 := by decide
  have hwords : ∀ e ∈ wordEdits, QuoteFree e.2.2 := by decide
  induction h with
  | nil => exact .nil
  | copy c _ ih => exact .copy c ih
  | @edit before u v s t h hleft hright _ ih =>
    cases h with
    | sign h => exact .symbols (hsigns _ h).1 (hsigns _ h).2 ih
    | letter h =>
      obtain ⟨hk, hv⟩ := hletters _ h
      rw [← List.append_nil u] at hleft
      exact .keyword hk (hk.noWord_left hleft) (hk.noWord_right hright) hv ih
    | word h =>
      have hk := isKeyword_of_mem_wholeWords (wordEdits_wholeWords _ h) rfl
      rw [← List.append_nil u] at hleft
      exact .keyword hk (hk.noWord_left hleft) (hk.noWord_right hright) (hwords _ h) ih
    | negation hw hblanks =>
      have hk : IsKeyword _ := isKeyword_of_mem_wholeWords (by decide) hw
      exact negation_rewrites hw hblanks (hk.noWord_left hleft) hright ih
    | @random w blanks spaces hw hblanks hspaces =>
      have hk : IsKeyword w := isKeyword_of_mem_wholeWords (by decide) hw
      have hcall := call_rewrites hk hblanks spaces hspaces (hk.noWord_left hleft)
        (by decide : QuoteFree "Math.floor(Math.random() * ".toList) (ih.of_before (.inl rfl))
      simpa using hcall
    | @closing spaces hspaces =>
      have hsymbols : IsSymbols (spaces ++ [')']) := by
        refine ⟨by simp, List.forall_mem_append.2 ⟨fun c hc => ?_, List.forall_mem_singleton.2 ?_⟩⟩
        · exact isSymbol_of_isSpace (hspaces c hc)
        · decide
      exact .symbols hsymbols (by decide) ih
    | @call w blanks hw hblanks =>
      have hk := isKeyword_of_mem_intrinsics hw
      have hcall := call_rewrites hk hblanks [] (List.forall_mem_nil _) (hk.noWord_left hleft)
        (memberFor_quoteFree w) (ih.of_before (.inl rfl))
      simpa using hcall

/-- **The rules rewrite a text,** pass by pass. -/
theorem applyRules_rewrites (rules : List Rule) (s : List Char) :
    Relation.ReflTransGen (Rewrites none) s (applyRules rules s) :=
  Relation.ReflTransGen.mono (fun _ _ ⟨_, _, h⟩ => h.rewrites) _ _ (applyRules_edits rules s)

end Expr

end Pseudocode
