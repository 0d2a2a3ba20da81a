import Pseudocode.Proofs.Expr.Literals
import Pseudocode.Proofs.Expr.Words
import Pseudocode.Proofs.Scan.Places
import Pseudocode.Proofs.Scan.Segmented

/-!
# Expressions and conditions agree

The two conversions apply the rules for the boolean constants, the logical operators and the
remainder in different orders.  In code each of these rules concerns words of its own and writes
nothing that concerns another one, so they commute; the negation takes blanks as well, but no
other rule touches blanks.  The boolean constants are replaced in literals too, where no other rule
reads.

* `negate_mapWords` : the negation commutes with substitutions for other words.
* `logic_booleans` : the two orders give the same for a run of code.
* `condition_eq_expression` : **a text without equality signs and `<>` in code is converted to the
  same as an expression and as a condition.**
-/

namespace Pseudocode

namespace Expr

open Scan

variable {w s t run : List Char} {c : Char}

/-! ### The negation -/

/-- The negation is a whole word, with the blanks that follow it. -/
theorem negation_eq_map (before : Option Char) (s : List Char) :
    negation before s = (wordPattern "no".toList "!".toList before s).map fun occ =>
      (occ.1 + ((s.drop occ.1).takeWhile Text.isBlank).length, occ.2) := by
  unfold negation wordPattern
  cases hs : Text.splitWholeKey? "no".toList s with
  | none => rfl
  | some parts =>
    obtain ⟨read, rest⟩ := parts
    obtain ⟨⟨-, rfl⟩, -⟩ := Text.splitWholeKey?_eq_some_iff.1 hs
    dsimp only
    split
    · rw [Option.map_some, List.drop_left]
    · rfl

theorem spellsInWords_no (s : List Char) : SpellsInWords "no".toList s :=
  spellsInWords_of_notMem (by decide) (by decide) (.inl (by decide))

theorem negation_atWords (s : List Char) : AtWords negation s := by
  have hword : AtWords (wordPattern "no".toList "!".toList) s :=
    wordPattern_atWords (by decide) (spellsInWords_no s)
  refine ⟨fun before t hbefore => ?_, fun before c t hsuffix hocc => ?_⟩
  · rw [negation_eq_map, negation_eq_map, hword.of_noWord before t hbefore]
  · rw [negation_eq_map, ne_eq, Option.map_eq_none_iff] at hocc
    exact hword.starts before c t hsuffix hocc

theorem negation_word (hw : IsWord w) (hs : NoWord s.head?) :
    negation none (w ++ s) =
      if w.map Text.keyChar = "no".toList then
        some ((w ++ s.takeWhile Text.isBlank).length, "!".toList)
      else none := by
  have hkey : "no".toList ≠ [] := by decide
  have htakes : TakesWords (wordPattern "no".toList "!".toList) (.ofKey _ _ hkey) (w ++ s) :=
    wordPattern_takesWords hkey (spellsInWords_no (w ++ s))
  rw [negation_eq_map, htakes w s (List.suffix_refl _) hw hs]
  by_cases hno : w.map Text.keyChar = "no".toList <;> simp [Substitution.ofKey, hno]

theorem negate_cons (hc : Text.isWordChar c = false) (s : List Char) :
    replaceAll negation (c :: s) = c :: replaceAll negation s :=
  (negation_atWords _).replaceAll_cons hc

theorem negate_other (hw : IsWord w) (hs : NoWord s.head?)
    (hno : w.map Text.keyChar ≠ "no".toList) :
    replaceAll negation (w ++ s) = w ++ replaceAll negation s :=
  (negation_atWords _).replaceAll_word hw hs (by rw [negation_word hw hs, if_neg hno])

theorem isWordChar_of_isBlank (h : Text.isBlank c = true) : Text.isWordChar c = false :=
  NoWord.of_isNameChar_eq_false (Text.isNameChar_of_isSpace (Text.isSpace_of_isBlank h))

theorem negate_no (hw : IsWord w) (hs : NoWord s.head?) (hno : w.map Text.keyChar = "no".toList) :
    replaceAll negation (w ++ s) = '!' :: replaceAll negation (Text.skipBlanks s) := by
  have hocc := negation_word hw hs
  have hne : w ≠ [] := by
    rintro rfl
    cases hno
  have hsplit := List.takeWhile_append_dropWhile (p := Text.isBlank) (l := s)
  have hblanks : ∀ c ∈ s.takeWhile Text.isBlank, Text.isBlank c = true :=
    List.all_eq_true.1 List.all_takeWhile
  rw [if_pos hno] at hocc
  rw [Text.skipBlanks]
  generalize s.takeWhile Text.isBlank = blanks at hocc hsplit hblanks
  generalize s.dropWhile Text.isBlank = back at hsplit
  subst hsplit
  rw [← List.append_assoc] at hocc ⊢
  -- behind the occurrence no word goes on: it ends with a blank, or with the word itself
  have hplace : NoWord (w ++ blanks).getLast? ∨ NoWord back.head? := by
    cases hlast : blanks.getLast? with
    | none =>
      rw [List.getLast?_eq_none_iff.1 hlast, List.nil_append] at hs
      exact .inr hs
    | some d =>
      rw [List.getLast?_append, hlast]
      exact .inl (isWordChar_of_isBlank (hblanks d (List.mem_of_getLast? hlast)))
  exact (negation_atWords _).replaceAll_occurrence (by simp [hne]) hocc hplace

theorem noWord_head?_negate (hs : NoWord s.head?) : NoWord (replaceAll negation s).head? := by
  cases s with
  | nil => rfl
  | cons c s =>
    rw [negate_cons (by simpa [NoWord] using hs)]
    exact hs

theorem noWord_head?_mapWords {f : List Char → List Char} (hnil : f [] = [])
    (hs : NoWord s.head?) : NoWord (mapWords f s).head? := by
  cases s with
  | nil =>
    rw [mapWords_nil hnil]
    rfl
  | cons c s =>
    rw [mapWords_cons hnil (by simpa [NoWord] using hs)]
    exact hs

/-- What the substitution writes stands in the way of no negation. -/
structure Substitution.Spares (σ : Substitution) : Prop where
  no : ∀ w, w.map Text.keyChar = "no".toList → σ.applies w = false
  head : ∃ c t, σ.replacement = c :: t ∧ Text.isBlank c = false
  negate : ∀ s, NoWord s.head? →
    replaceAll negation (σ.replacement ++ s) = σ.replacement ++ replaceAll negation s

variable {σ : Substitution}

theorem Substitution.Spares.skipBlanks_mapWords (h : σ.Spares) (s : List Char) :
    Text.skipBlanks (mapWords σ.map s) = mapWords σ.map (Text.skipBlanks s) := by
  induction s with
  | nil =>
    rw [mapWords_nil σ.map_nil]
    exact (mapWords_nil σ.map_nil).symm
  | cons c s ih =>
    by_cases hblank : Text.isBlank c = true
    · have hskip : ∀ t, Text.skipBlanks (c :: t) = Text.skipBlanks t := fun t =>
        List.dropWhile_cons_of_pos hblank
      rw [mapWords_cons σ.map_nil (isWordChar_of_isBlank hblank), hskip, hskip, ih]
    · have hstay : ∀ {d t}, Text.isBlank d = false → Text.skipBlanks (d :: t) = d :: t :=
        fun hd => List.dropWhile_cons_of_neg (by simp [hd])
      rw [Bool.not_eq_true] at hblank
      obtain hnil | ⟨d, t, heq, hd⟩ | ⟨w, t, heq, hne, hw, ht⟩ := word_cases (c :: s)
      · cases hnil
      · obtain ⟨rfl, rfl⟩ := List.cons.inj heq
        rw [mapWords_cons σ.map_nil hd, hstay hblank, hstay hblank, mapWords_cons σ.map_nil hd]
      · -- a word is copied or replaced, and what is written starts with no blank
        obtain ⟨d, v, hmap, hd⟩ : ∃ d v, σ.map w = d :: v ∧ Text.isBlank d = false := by
          cases happlies : σ.applies w with
          | true =>
            rw [Substitution.map_of_applies happlies]
            exact h.head
          | false =>
            rw [Substitution.map_of_not_applies happlies]
            obtain ⟨d, w, rfl⟩ := List.exists_cons_of_ne_nil hne
            obtain ⟨rfl, -⟩ := List.cons.inj heq
            exact ⟨c, w, rfl, hblank⟩
        rw [hstay hblank, heq, mapWords_append σ.map_nil hw ht, hmap, List.cons_append, hstay hd]

/-- **The negation commutes with substitutions** for words other than `NO`. -/
theorem negate_mapWords (h : σ.Spares) (s : List Char) :
    replaceAll negation (mapWords σ.map s) = mapWords σ.map (replaceAll negation s) := by
  -- the negation skips blanks, so the induction is on the length of the text
  induction hn : s.length using Nat.strongRecOn generalizing s with
  | ind n ih =>
    subst hn
    obtain rfl | ⟨c, t, rfl, hc⟩ | ⟨w, t, rfl, hne, hw, ht⟩ := word_cases s
    · rw [mapWords_nil σ.map_nil]
      exact (mapWords_nil σ.map_nil).symm
    · rw [mapWords_cons σ.map_nil hc, negate_cons hc, negate_cons hc, mapWords_cons σ.map_nil hc,
        ih t.length (by simp) t rfl]
    · have hhead := noWord_head?_mapWords σ.map_nil ht
      have hlength := List.length_pos_iff.2 hne
      rw [mapWords_append σ.map_nil hw ht]
      by_cases hno : w.map Text.keyChar = "no".toList
      · have hsign : Text.isWordChar '!' = false := by decide
        have hshorter : (Text.skipBlanks t).length < (w ++ t).length := by
          have hle := (Text.skipBlanks_suffix t).length_le
          rw [List.length_append]
          omega
        rw [Substitution.map_of_not_applies (h.no w hno), negate_no hw hhead hno,
          negate_no hw ht hno, h.skipBlanks_mapWords, ih _ hshorter _ rfl,
          mapWords_cons σ.map_nil hsign]
      · have hrest := ih t.length (by rw [List.length_append]; omega) t rfl
        rw [negate_other hw ht hno, mapWords_append σ.map_nil hw (noWord_head?_negate ht), ← hrest]
        cases happlies : σ.applies w with
        | true =>
          rw [Substitution.map_of_applies happlies]
          exact h.negate _ hhead
        | false =>
          rw [Substitution.map_of_not_applies happlies]
          exact negate_other hw hhead hno

theorem Substitution.Spares.of_isWord (hne : σ.replacement ≠ []) (hword : IsWord σ.replacement)
    (hwritten : σ.replacement.map Text.keyChar ≠ "no".toList)
    (hno : ∀ w, w.map Text.keyChar = "no".toList → σ.applies w = false) : σ.Spares := by
  refine ⟨hno, ?_, fun s hs => negate_other hword hs hwritten⟩
  obtain ⟨c, t, hcons⟩ := List.exists_cons_of_ne_nil hne
  refine ⟨c, t, hcons, ?_⟩
  by_contra hblank
  have hc := hword c (by simp [hcons])
  rw [isWordChar_of_isBlank (by simpa using hblank)] at hc
  cases hc

/-! ### Patterns with one replacement -/

/-- The pattern has one replacement, whatever its occurrence. -/
def Writes (p : Pattern) (v : List Char) : Prop :=
  ∀ before s n v', p before s = some (n, v') → v' = v

theorem wordPattern_writes (word v : List Char) : Writes (wordPattern word v) v := by
  intro before s n v' h
  obtain ⟨-, -, -, -, -, -, rfl⟩ := wordPattern_eq_some_iff.1 h
  rfl

theorem letterPattern_writes (letter : Char) (v : List Char) :
    Writes (letterPattern letter v) v := by
  intro before s n v' h
  unfold letterPattern at h
  split at h
  · cases h
  · split at h <;> cases h
    rfl

theorem negation_writes : Writes negation "!".toList := by
  intro before s n v' h
  rw [negation_eq_map, Option.map_eq_some_iff] at h
  obtain ⟨⟨m, v⟩, hocc, heq⟩ := h
  cases heq
  exact wordPattern_writes _ _ _ _ _ _ hocc

theorem Writes.addsOnly {p : Pattern} {v : List Char} (h : Writes p v) : p.AddsOnly v := by
  intro before s n v' hocc
  rw [h _ _ _ _ hocc]
  exact List.subset_append_right _ _

theorem infix_of_infix_append {a b : Char} (ha : a ∉ s) (h : [a, b] <:+: s ++ t) :
    [a, b] <:+: t := by
  induction s with
  | nil => exact h
  | cons c s ih =>
    obtain ⟨hc, hs⟩ := not_or.1 (mt List.mem_cons.2 ha)
    obtain hstart | hlater := List.infix_cons_iff.1 h
    · exact absurd (List.cons_prefix_cons.1 hstart).1 hc
    · exact ih hs hlater

/-- Two neighbours of a result are neighbours in the text, if the replacement is not empty and holds
neither of them. -/
theorem Writes.infix_of_infix_replaceFrom {p : Pattern} {a b : Char} {v : List Char}
    (hp : Writes p v) (hne : v ≠ []) (ha : a ∉ v) (hb : b ∉ v) (before : Option Char) (skip : Nat)
    (h : [a, b] <:+: replaceFrom p before skip s) : [a, b] <:+: s := by
  induction s generalizing before skip with
  | nil => exact h
  | cons c s ih =>
    have hrest : ∀ {b' k}, [a, b] <:+: replaceFrom p b' k s → [a, b] <:+: c :: s := fun h =>
      List.infix_cons_iff.2 (.inr (ih _ _ h))
    cases skip with
    | succ skip => exact hrest h
    | zero =>
      simp only [replaceFrom] at h
      split at h
      · rename_i n v' hocc
        obtain rfl := hp _ _ _ _ hocc
        exact hrest (infix_of_infix_append ha h)
      · obtain hstart | hlater := List.infix_cons_iff.1 h
        · -- the second one starts the rest of the result, so it has been copied
          obtain ⟨rfl, hsecond⟩ := List.cons_prefix_cons.1 hstart
          cases s with
          | nil => cases List.prefix_nil.1 hsecond
          | cons d s =>
            simp only [replaceFrom] at hsecond
            split at hsecond
            · rename_i n v' hocc
              obtain rfl := hp _ _ _ _ hocc
              obtain ⟨e, v, rfl⟩ := List.exists_cons_of_ne_nil hne
              exact absurd (List.cons_prefix_cons.1 hsecond).1 (List.ne_of_not_mem_cons hb)
            · obtain ⟨rfl, -⟩ := List.cons_prefix_cons.1 hsecond
              exact ⟨[], s, rfl⟩
        · exact hrest hlater

/-! ### Runs of code -/

/-- A run of code in which nothing is compared for equality, and that holds no long s. -/
structure Plain (run : List Char) : Prop where
  no_long_s : 'ſ' ∉ run
  no_equality : '=' ∉ run
  no_inequality : ¬ ['<', '>'] <:+: run

/-- The replacement takes nothing from a run that is plain. -/
def PlainText (v : List Char) : Bool := v != [] && !(['ſ', '=', '<', '>'].any v.contains)

theorem Plain.replaceAll {p : Pattern} {v : List Char} (hp : Writes p v) (hv : PlainText v = true)
    (h : Plain run) : Plain (replaceAll p run) := by
  simp only [PlainText, List.any_cons, List.any_nil, Bool.or_false, Bool.not_or, Bool.and_eq_true,
    bne_iff_ne, Bool.not_eq_true', List.contains_eq_mem, decide_eq_false_iff_not] at hv
  obtain ⟨hne, hs, heq, hless, hgreater⟩ := hv
  have hsub := replaceAll_subset hp.addsOnly run
  refine ⟨fun hmem => ?_, fun hmem => ?_, fun hinfix => h.no_inequality ?_⟩
  · exact (List.mem_append.1 (hsub hmem)).elim h.no_long_s hs
  · exact (List.mem_append.1 (hsub hmem)).elim h.no_equality heq
  · exact hp.infix_of_infix_replaceFrom hne hless hgreater none 0 hinfix

theorem inequality_eq_self (h : Plain run) : replaceAll inequality run = run := by
  refine replaceAll_eq_self fun start rest _ hs => ?_
  unfold inequality textPattern
  refine if_neg fun hocc => h.no_inequality ?_
  obtain ⟨back, rfl⟩ := List.isPrefixOf_iff_prefix.1 hocc
  exact ⟨start, back, by rw [hs, List.append_assoc]; rfl⟩

theorem equality_eq_self (h : Plain run) : replaceAll equality run = run := by
  refine replaceAll_eq_self fun start rest _ hs => ?_
  have hrest : '=' ∉ rest := fun hmem => h.no_equality (by simp [hs, hmem])
  unfold equality
  split
  · simp at hrest
  · simp at hrest
  · rfl

/-- The remainder as a substitution. -/
def modWord : Substitution := .ofKey "mod".toList "%".toList (by decide)

/-- The conjunction as a substitution. -/
def andWord : Substitution := .ofLetter 'Y' "&&".toList

/-- The disjunction as a substitution. -/
def orWord : Substitution := .ofLetter 'O' "||".toList

/-- The constant `Verdadero` as a substitution. -/
def trueWord : Substitution := .ofKey "verdadero".toList "true".toList (by decide)

/-- The constant `Falso` as a substitution. -/
def falseWord : Substitution := .ofKey "falso".toList "false".toList (by decide)

theorem remainder_eq (s : List Char) : replaceAll remainder s = mapWords modWord.map s :=
  wordPattern_replaceAll_eq _ (spellsInWords_of_notMem (by decide) (by decide) (.inl (by decide)))

theorem conjunction_eq (s : List Char) : replaceAll conjunction s = mapWords andWord.map s :=
  letterPattern_replaceAll_eq (by decide) _ s

theorem disjunction_eq (s : List Char) : replaceAll disjunction s = mapWords orWord.map s :=
  letterPattern_replaceAll_eq (by decide) _ s

theorem plain_booleans (h : Plain run) : Plain (booleans run) :=
  (h.replaceAll (wordPattern_writes _ _) (by decide)).replaceAll (wordPattern_writes _ _)
    (by decide)

/-- The long s stands for a letter of `Falso`, but it is no word character. -/
theorem booleans_eq (h : Plain run) :
    booleans run = mapWords falseWord.map (mapWords trueWord.map run) := by
  have htrue : replaceAll (wordPattern "verdadero".toList "true".toList) run =
      mapWords trueWord.map run :=
    wordPattern_replaceAll_eq _ (spellsInWords_of_notMem (by decide) (by decide) (.inl (by decide)))
  have hplain := h.replaceAll (wordPattern_writes "verdadero".toList "true".toList) (by decide)
  have hfalse : SpellsInWords "falso".toList
      (replaceAll (wordPattern "verdadero".toList "true".toList) run) :=
    spellsInWords_of_notMem (by decide) (by decide) (.inr hplain.no_long_s)
  unfold booleans
  rw [wordPattern_replaceAll_eq (by decide) hfalse, htrue, falseWord]

/-- The logical operators in code, in the order in which they are replaced. -/
def logic (s : List Char) : List Char :=
  replaceAll negation (replaceAll disjunction (replaceAll conjunction s))

theorem Plain.logic (h : Plain run) : Plain (logic run) :=
  ((h.replaceAll (letterPattern_writes _ _) (by decide)).replaceAll
    (letterPattern_writes _ _) (by decide)).replaceAll negation_writes (by decide)

theorem logic_mapWords (hspares : σ.Spares) (hand : σ.Commutes andWord) (hor : σ.Commutes orWord)
    (s : List Char) : logic (mapWords σ.map s) = mapWords σ.map (logic s) := by
  unfold logic
  rw [conjunction_eq, conjunction_eq, disjunction_eq, disjunction_eq, ← hand, ← hor,
    negate_mapWords hspares]

theorem ofKey_no {key v : List Char} {hkey : key ≠ []} (hno : "no".toList ≠ key) (w : List Char)
    (hw : w.map Text.keyChar = "no".toList) : (Substitution.ofKey key v hkey).applies w = false :=
  beq_eq_false_iff_ne.2 (hw ▸ hno)

theorem logic_modWord (s : List Char) :
    logic (mapWords modWord.map s) = mapWords modWord.map (logic s) := by
  have hspares : modWord.Spares :=
    ⟨ofKey_no (by decide), ⟨'%', [], rfl, by decide⟩, fun s _ => negate_cons (by decide) s⟩
  exact logic_mapWords hspares
    (Substitution.commutes_ofKey_ofLetter (by decide) (by decide) (by decide))
    (Substitution.commutes_ofKey_ofLetter (by decide) (by decide) (by decide)) s

/-- For the constants words are written, neither of which is the negation. -/
theorem logic_trueWord (s : List Char) :
    logic (mapWords trueWord.map s) = mapWords trueWord.map (logic s) :=
  logic_mapWords (.of_isWord (by decide) (by decide) (by decide) (ofKey_no (by decide)))
    (Substitution.commutes_ofKey_ofLetter (by decide) (by decide) (by decide))
    (Substitution.commutes_ofKey_ofLetter (by decide) (by decide) (by decide)) s

theorem logic_falseWord (s : List Char) :
    logic (mapWords falseWord.map s) = mapWords falseWord.map (logic s) :=
  logic_mapWords (.of_isWord (by decide) (by decide) (by decide) (ofKey_no (by decide)))
    (Substitution.commutes_ofKey_ofLetter (by decide) (by decide) (by decide))
    (Substitution.commutes_ofKey_ofLetter (by decide) (by decide) (by decide)) s

/-- **The two orders give the same for a run of code.** -/
theorem logic_booleans (h : Plain run) :
    replaceAll remainder (replaceAll equality (replaceAll inequality (logic (booleans run)))) =
      booleans (logic (replaceAll remainder run)) := by
  have hplain : Plain (logic (booleans run)) := (plain_booleans h).logic
  have hplain' : Plain (logic (replaceAll remainder run)) :=
    (h.replaceAll (wordPattern_writes _ _) (by decide)).logic
  have hfalse : modWord.Commutes falseWord :=
    Substitution.commutes_ofKey (by decide) (by decide) (by decide)
  have htrue : modWord.Commutes trueWord :=
    Substitution.commutes_ofKey (by decide) (by decide) (by decide)
  calc replaceAll remainder (replaceAll equality (replaceAll inequality (logic (booleans run))))
      = mapWords modWord.map (logic (booleans run)) := by
        rw [inequality_eq_self hplain, equality_eq_self hplain, remainder_eq]
    _ = logic (mapWords modWord.map (mapWords falseWord.map (mapWords trueWord.map run))) := by
        rw [logic_modWord, booleans_eq h]
    _ = logic (mapWords falseWord.map (mapWords trueWord.map (mapWords modWord.map run))) := by
        rw [hfalse, htrue]
    _ = mapWords falseWord.map (mapWords trueWord.map (logic (mapWords modWord.map run))) := by
        rw [logic_falseWord, logic_trueWord]
    _ = booleans (logic (replaceAll remainder run)) := by
        rw [booleans_eq hplain', remainder_eq]

/-! ### Texts -/

/-- A text in which nothing is compared for equality in code, and that holds no long s. -/
structure PlainCode (s : List Char) : Prop where
  no_long_s : 'ſ' ∉ s
  equality : OnlyInLiterals "=".toList s
  inequality : OnlyInLiterals "<>".toList s

theorem PlainCode.plain (h : PlainCode (run ++ t)) (hrun : QuoteFree run) : Plain run where
  no_long_s hmem := h.no_long_s (List.mem_append_left t hmem)
  no_equality hmem := by
    obtain ⟨front, back, rfl⟩ := List.append_of_mem hmem
    exact h.equality.left.not_infix hrun ⟨front, back, by simp⟩
  no_inequality := h.inequality.left.not_infix hrun

theorem replaceAll_append_quote {p : Pattern} (hp : p.StopsAtQuotes)
    (hc : (role c).isQuote = true) (s t : List Char) :
    replaceAll p (s ++ c :: t) = replaceAll p s ++ c :: replaceAll p t := by
  have hright : Seam s (c :: t) := .inr fun d hd => by
    obtain rfl := Option.some.inj hd
    exact hc
  have hleft : Seam [c] t := .inl ⟨c, rfl, hc⟩
  have hquote : replaceAll p [c] = [c] := by
    simp only [replaceAll, replaceFrom, hp.at_quote none c [] hc]
  rw [replaceAll_append hp hright, ← List.singleton_append, replaceAll_append hp hleft, hquote,
    List.singleton_append]

theorem booleans_append_quote (hc : (role c).isQuote = true) (s t : List Char) :
    booleans (s ++ c :: t) = booleans s ++ c :: booleans t := by
  unfold booleans
  rw [replaceAll_append_quote (wordPattern_stopsAtQuotes (by decide) (by decide)) hc,
    replaceAll_append_quote (wordPattern_stopsAtQuotes (by decide) (by decide)) hc]

theorem quoteFree_booleans (h : QuoteFree run) : QuoteFree (booleans run) :=
  (h.append alphabet_quoteFree).mono (booleans_subset run)

theorem booleans_body {q : Quote} (h : ∀ d ∈ s, role d ≠ .quote q) :
    ∀ d ∈ booleans s, role d ≠ .quote q := by
  intro d hd hq
  obtain hd | hd := List.mem_append.1 (booleans_subset s hd)
  · exact h d hd hq
  · have hfree := alphabet_quoteFree d hd
    rw [hq] at hfree
    cases hfree

/-- The constants are replaced run by run and literal by literal, so the rules for code may come
before or after them, as they may in each run. -/
theorem mapCode_booleans {f g : List Char → List Char} (hf : f [] = []) (hg : g [] = [])
    (hruns : ∀ run, Plain run → f (booleans run) = booleans (g run)) (h : PlainCode s) :
    mapCode f (booleans s) = booleans (mapCode g s) := by
  induction segmented s with
  | @run run hrun =>
    have hplain : Plain run := PlainCode.plain (t := []) (by rwa [List.append_nil]) hrun
    rw [mapCode_run hg hrun, mapCode_run hf (quoteFree_booleans hrun), hruns run hplain]
  | unclosed hrun hc hbody =>
    have hquote := Role.isQuote_iff.2 ⟨_, hc⟩
    rw [mapCode_unclosed hg hrun hc hbody, booleans_append_quote hquote,
      booleans_append_quote hquote,
      mapCode_unclosed hf (quoteFree_booleans hrun) hc (booleans_body hbody),
      hruns _ (h.plain hrun)]
  | @closed run body rest c d q hrun hc hbody hd _ ih =>
    have hquote := Role.isQuote_iff.2 ⟨q, hc⟩
    have hquote' := Role.isQuote_iff.2 ⟨q, hd⟩
    have hrest : PlainCode rest :=
      ⟨fun hmem => h.no_long_s (by simp [hmem]), h.equality.closed hrun hc hbody hd,
        h.inequality.closed hrun hc hbody hd⟩
    rw [mapCode_closed hg hrun hc hbody hd, booleans_append_quote hquote,
      booleans_append_quote hquote', booleans_append_quote hquote, booleans_append_quote hquote',
      mapCode_closed hf (quoteFree_booleans hrun) hc (booleans_body hbody) hd, ih hrest,
      hruns _ (h.plain hrun)]

/-- Replaces patterns in code, one after the other. -/
def replaceInCode (ps : List Pattern) (s : List Char) : List Char :=
  ps.foldl (fun s p => mapCode (replaceAll p) s) s

/-- Replaces patterns everywhere, one after the other. -/
def replaceEach (ps : List Pattern) (s : List Char) : List Char :=
  ps.foldl (fun s p => replaceAll p s) s

theorem replaceInCode_eq {ps : List Pattern} (hps : ∀ p ∈ ps, p.AddsOnly alphabet)
    (s : List Char) : replaceInCode ps s = mapCode (replaceEach ps) s := by
  have hmaps : ∀ f ∈ ps.map replaceAll, CodeMap f := by
    refine List.forall_mem_map.2 fun p hp => ⟨rfl, fun run hrun => ?_⟩
    exact (hrun.append alphabet_quoteFree).mono (replaceAll_subset (hps p hp) run)
  have heach : inTurn (ps.map replaceAll) = replaceEach ps := funext fun _ => List.foldl_map
  calc replaceInCode ps s
    _ = inTurn ((ps.map replaceAll).map mapCode) s := by
      rw [inTurn, List.foldl_map, List.foldl_map, replaceInCode]
    _ = mapCode (inTurn (ps.map replaceAll)) s := inTurn_map_mapCode hmaps s
    _ = mapCode (replaceEach ps) s := by rw [heach]

/-- **A text is converted to the same as a condition and as an expression,** if it has no equality
sign and no `<>` outside literals and holds no long s. -/
theorem condition_eq_expression (s : List Char) (heq : OnlyInLiterals "=".toList s)
    (hne : OnlyInLiterals "<>".toList s) (hlong : 'ſ' ∉ s) : condition s = expression s := by
  have hand : conjunction.AddsOnly alphabet := Pattern.letterPattern_addsOnly (by decide)
  have hor : disjunction.AddsOnly alphabet := Pattern.letterPattern_addsOnly (by decide)
  have hmod : remainder.AddsOnly alphabet := Pattern.wordPattern_addsOnly (by decide)
  have hneq : inequality.AddsOnly alphabet := Pattern.textPattern_addsOnly (by decide)
  have hbefore : ∀ p ∈ [remainder, conjunction, disjunction, negation], p.AddsOnly alphabet := by
    simp [hand, hor, hmod, negation_addsOnly]
  have hafter : ∀ p ∈ [conjunction, disjunction, negation, inequality, equality, remainder],
      p.AddsOnly alphabet := by
    simp [hand, hor, hmod, hneq, negation_addsOnly, equality_addsOnly]
  have hcode : mapCode (replaceEach [conjunction, disjunction, negation, inequality, equality,
      remainder]) (booleans s) =
        booleans (mapCode (replaceEach [remainder, conjunction, disjunction, negation]) s) :=
    mapCode_booleans rfl rfl (fun run hrun => logic_booleans hrun) ⟨hlong, heq, hne⟩
  rw [← replaceInCode_eq hbefore, ← replaceInCode_eq hafter] at hcode
  exact congrArg (applyRules [.random, .power, .intrinsics]) hcode

/-- The rules that come in different orders meet here: blanks behind a negation in front of the
other words, letters beyond ASCII at their borders, comparisons in literals only, and a last literal
that is not closed. -/
theorem condition_eq_expression_with_mixed_words :
    let s := ("NO \t mod(x) Y no FALSO O ñNO\u212a < azar( rc(2^3) ) " ++
      "\"a = Falso <> b\" mod Verdadero 'Y O").toList
    (OnlyInLiterals "=".toList s ∧ OnlyInLiterals "<>".toList s ∧ 'ſ' ∉ s) ∧
      condition s = expression s ∧
      expression s =
        ("!%(x) && !false || ñ!\u212a < Math.floor(Math.random() * (Math.sqrt(2**3))) " ++
          "\"a = false <> b\" % true 'Y O").toList := by
  intro s
  suffices h : OnlyInLiterals "=".toList s ∧ OnlyInLiterals "<>".toList s ∧ 'ſ' ∉ s from
    ⟨h, condition_eq_expression s h.1 h.2.1 h.2.2, by clear h; decide +revert +kernel⟩
  rw [← breakCode?_eq_none_iff (by decide) (by decide),
    ← breakCode?_eq_none_iff (by decide) (by decide)]
  decide +revert +kernel

end Expr

end Pseudocode
