import Mathlib.Logic.Relation
import Pseudocode.Proofs.Expr.Alphabet
import Pseudocode.Proofs.Scan.Names

/-!
# What the rules edit

The rules read a text from the left and write it anew.  Most characters are copied; the others
belong to pieces that are edited: a sign, a word between two borders, a call up to its parenthesis
or the closing parenthesis of a call.  `Edit` lists these pieces and what is written for them, and
`Edits` puts them into a text, so that whatever follows from it holds of all rules at once.

* `Edit` : a piece and what is written for it.
* `Edits` : a text and what is made of it, piece by piece.
* `Edits.append` : texts can be edited side by side where no word goes on.
* `replaceFrom_edits`, `mapCode_edits` : what follows for a pattern, in a whole text and in code
  only.
* `Rule.apply_edits` : **every rule edits texts in this way.**
-/

namespace Pseudocode

namespace Expr

open Scan

/-! ### Pieces -/

/-- No ASCII word goes on at a place with this neighbour. -/
def NoWord (neighbour : Option Char) : Prop := neighbour.any Text.isWordChar = false

instance (neighbour : Option Char) : Decidable (NoWord neighbour) :=
  inferInstanceAs (Decidable (_ = _))

/-- The operators, constants and functions that are looked for at borders of words, in lower
case. -/
def wholeWords : List (List Char) :=
  ["no".toList, "mod".toList, "verdadero".toList, "falso".toList, "azar".toList]

/-- The signs that are replaced, and what is written for them. -/
def signEdits : List (Rule × List Char × List Char) :=
  [(.inequality, "<>".toList, "!=".toList), (.equality, "=".toList, "==".toList),
   (.power, "^".toList, "**".toList)]

/-- The capital letters that are replaced, and what is written for them. -/
def letterEdits : List (Rule × List Char × List Char) :=
  [(.conjunction, ['Y'], "&&".toList), (.disjunction, ['O'], "||".toList)]

/-- The words that are replaced in any letter case, and what is written for them. -/
def wordEdits : List (Rule × List Char × List Char) :=
  [(.remainder, "mod".toList, "%".toList), (.booleans, "verdadero".toList, "true".toList),
   (.booleans, "falso".toList, "false".toList)]

/-- A piece of a text and what the rule writes for it. -/
inductive Edit : Rule → List Char → List Char → Prop
  | sign {rule : Rule} {u v : List Char} (h : (rule, u, v) ∈ signEdits) : Edit rule u v
  | letter {rule : Rule} {u v : List Char} (h : (rule, u, v) ∈ letterEdits) : Edit rule u v
  | word {rule : Rule} {w v : List Char} (h : (rule, w.map Text.keyChar, v) ∈ wordEdits) :
    Edit rule w v
  | negation {w blanks : List Char} (hw : w.map Text.keyChar = "no".toList)
    (hblanks : ∀ c ∈ blanks, Text.isBlank c = true) : Edit .negation (w ++ blanks) "!".toList
  | random {w blanks spaces : List Char} (hw : w.map Text.keyChar = "azar".toList)
    (hblanks : ∀ c ∈ blanks, Text.isBlank c = true)
    (hspaces : ∀ c ∈ spaces, Text.isSpace c = true) :
    Edit .random (w ++ (blanks ++ '(' :: spaces)) "Math.floor(Math.random() * (".toList
  | closing {spaces : List Char} (hspaces : ∀ c ∈ spaces, Text.isSpace c = true) :
    Edit .random (spaces ++ [')']) "))".toList
  | call {w blanks : List Char} (hw : w.map Text.keyChar ∈ intrinsics.map (·.1))
    (hblanks : ∀ c ∈ blanks, Text.isBlank c = true) :
    Edit .intrinsics (w ++ (blanks ++ ['('])) (memberFor w ++ ['('])

/-- All texts that are written for pieces. -/
def written : List (List Char) :=
  (signEdits ++ letterEdits ++ wordEdits).map (·.2.2) ++
    ["!".toList, "Math.floor(Math.random() * (".toList, "))".toList, "(".toList] ++
    intrinsics.map fun entry => entry.2 ++ ['(']

/-- A text and what the rule makes of it, piece by piece; `before` is the character before the text.
A piece is copied or edited, and where an edited piece starts or ends with a character of a name, no
word goes on beyond it. -/
inductive Edits (rule : Rule) : (before : Option Char) → List Char → List Char → Prop
  | nil {before : Option Char} : Edits rule before [] []
  | copy {before : Option Char} (c : Char) {s t : List Char} (rest : Edits rule (some c) s t) :
    Edits rule before (c :: s) (c :: t)
  | edit {before : Option Char} {u v s t : List Char} (h : Edit rule u v)
    (hleft : NoWord before ∨ u.head?.any Text.isNameChar = false)
    (hright : NoWord s.head? ∨ u.getLast?.any Text.isNameChar = false)
    (rest : Edits rule u.getLast? s t) : Edits rule before (u ++ s) (v ++ t)

/-- One of the rules edits the text. -/
def EditsByOneOf (rules : List Rule) (s t : List Char) : Prop := ∃ rule ∈ rules, Edits rule none s t

variable {rule : Rule}

theorem NoWord.of_isNameChar_eq_false {c : Char} (h : Text.isNameChar c = false) :
    NoWord (some c) := by
  by_contra hword
  have hword : Text.isWordChar c = true := by simpa [NoWord] using hword
  rw [Text.isNameChar_of_isWordChar hword] at h
  cases h

theorem NoWord.of_any_isNameChar {neighbour : Option Char}
    (h : neighbour.any Text.isNameChar = false) : NoWord neighbour := by
  cases neighbour with
  | none => rfl
  | some c => exact .of_isNameChar_eq_false h

theorem Edit.ne_nil {u v : List Char} (h : Edit rule u v) : u ≠ [] := by
  cases h with
  | sign h =>
    rintro rfl
    exact absurd h (by simp [signEdits])
  | letter h =>
    rintro rfl
    exact absurd h (by simp [letterEdits])
  | word h =>
    rintro rfl
    exact absurd h (by simp [wordEdits])
  | negation hw _ =>
    intro hnil
    rw [(List.append_eq_nil_iff.1 hnil).1] at hw
    exact absurd hw (by simp)
  | random => simp
  | closing => simp
  | call => simp

theorem Edit.mem_written {u v : List Char} (h : Edit rule u v) : v ∈ written := by
  have htable : ∀ {w : List Char}, (rule, w, v) ∈ signEdits ++ letterEdits ++ wordEdits →
      v ∈ written := fun h =>
    List.mem_append_left _ (List.mem_append_left _ (List.mem_map_of_mem (f := (·.2.2)) h))
  cases h with
  | sign h => exact htable (List.mem_append_left _ (List.mem_append_left _ h))
  | letter h => exact htable (List.mem_append_left _ (List.mem_append_right _ h))
  | word h => exact htable (List.mem_append_right _ h)
  | negation => decide
  | random => decide
  | closing => decide
  | @call w =>
    obtain hnil | ⟨name, hmem⟩ := memberFor_cases w
    · rw [hnil]
      decide
    · exact List.mem_append_right _ (List.mem_map_of_mem (f := fun entry => entry.2 ++ ['(']) hmem)

theorem written_ne_nil : ∀ v ∈ written, v ≠ [] := by decide

theorem Edit.head?_written {u v t x : List Char} {c : Char} (h : Edit rule u v)
    (ht : v ++ t = c :: x) : v.head? = some c := by
  have hhead := congrArg List.head? ht
  rwa [List.head?_append_of_ne_nil _ (written_ne_nil v h.mem_written)] at hhead

theorem getLast?_append_or {u : List Char} (hu : u ≠ []) (s : List Char) (before : Option Char) :
    (u ++ s).getLast?.or before = s.getLast?.or u.getLast? := by
  obtain ⟨c, hc⟩ := Option.isSome_iff_exists.1 (List.getLast?_isSome.2 hu)
  rw [List.getLast?_append, hc]
  cases s.getLast? <;> rfl

namespace Edits

variable {before before' : Option Char} {s t x x' y y' : List Char}

theorem copyAll (h : Edits rule (x.getLast?.or before) s t) :
    Edits rule before (x ++ s) (x ++ t) := by
  induction x generalizing before with
  | nil => exact h
  | cons c x ih =>
    rw [Text.getLast?_cons_or] at h
    exact copy c (ih h)

theorem refl (before : Option Char) (s : List Char) : Edits rule before s s := by
  have h := @copyAll rule before [] [] s nil
  rwa [List.append_nil] at h

/-- The character before a text matters only where a word may go on. -/
theorem of_before (h : Edits rule before s t)
    (hbefore : NoWord before' ∨ s.head?.any Text.isNameChar = false) : Edits rule before' s t := by
  cases h with
  | nil => exact nil
  | copy c rest => exact copy c rest
  | edit h _ hright rest =>
    refine edit h (hbefore.imp_right fun hhead => ?_) hright rest
    rwa [List.head?_append_of_ne_nil _ h.ne_nil] at hhead

/-- The first character of what is made of a text has been copied, unless it has been written. -/
theorem of_cons_target {c : Char} (h : Edits rule before s (c :: t))
    (hno : ∀ u v t', Edit rule u v → NoWord before ∨ u.head?.any Text.isNameChar = false →
      v ++ t' ≠ c :: t) : ∃ s', s = c :: s' ∧ Edits rule (some c) s' t := by
  generalize ht : c :: t = out at h
  cases h with
  | nil => cases ht
  | copy d rest =>
    obtain ⟨rfl, rfl⟩ := List.cons_eq_cons.1 ht
    exact ⟨_, rfl, rest⟩
  | edit h hleft => exact absurd ht.symm (hno _ _ _ h hleft)

/-- The first character of a text is copied, unless a piece that is edited starts with it. -/
theorem of_cons_source {c : Char} (h : Edits rule before (c :: s) t)
    (hno : ∀ u v s', Edit rule u v → NoWord before ∨ u.head?.any Text.isNameChar = false →
      u ++ s' ≠ c :: s) : ∃ t', t = c :: t' ∧ Edits rule (some c) s t' := by
  generalize hs : c :: s = source at h
  cases h with
  | nil => cases hs
  | copy d rest =>
    obtain ⟨rfl, rfl⟩ := List.cons_eq_cons.1 hs
    exact ⟨_, rfl, rest⟩
  | edit h hleft => exact absurd hs.symm (hno _ _ _ h hleft)

/-- **Texts can be edited side by side** where no word goes on between them. -/
theorem append (h : Edits rule before x x') (hy : NoWord y.head?)
    (h' : Edits rule (x.getLast?.or before) y y') : Edits rule before (x ++ y) (x' ++ y') := by
  induction h with
  | nil => exact h'
  | copy c rest ih =>
    rw [Text.getLast?_cons_or] at h'
    exact copy c (ih h')
  | @edit before u v s t h hleft hright rest ih =>
    rw [getLast?_append_or h.ne_nil] at h'
    rw [List.append_assoc, List.append_assoc]
    refine edit h hleft ?_ (ih h')
    cases s with
    | nil => exact .inl hy
    | cons c s => exact hright

end Edits

/-! ### Replacing patterns -/

/-- Each occurrence of the pattern is edited, whatever is made of the text behind it. -/
def EditsOccurrences (rule : Rule) (p : Pattern) : Prop :=
  ∀ before s n v, p before s = some (n, v) → ∃ u rest, u ≠ [] ∧ s = u ++ rest ∧ n = u.length ∧
    ∀ t, Edits rule u.getLast? rest t → Edits rule before s (v ++ t)

theorem replaceFrom_skip (p : Pattern) (before : Option Char) (u s : List Char) :
    replaceFrom p before u.length (u ++ s) = replaceFrom p (u.getLast?.or before) 0 s := by
  induction u generalizing before with
  | nil => rfl
  | cons c u ih =>
    rw [Text.getLast?_cons_or, ← ih (some c)]
    rfl

/-- Where the pattern occurs, its replacement is written and the search goes on behind the
occurrence. -/
theorem replaceFrom_occurrence {p : Pattern} {before : Option Char} {u s v : List Char}
    (hu : u ≠ []) (hocc : p before (u ++ s) = some (u.length, v)) :
    replaceFrom p before 0 (u ++ s) = v ++ replaceFrom p u.getLast? 0 s := by
  obtain ⟨c, u, rfl⟩ := List.exists_cons_of_ne_nil hu
  have hlast := Text.getLast?_cons_or c u none
  rw [Option.or_none] at hlast
  rw [List.cons_append] at hocc ⊢
  simp only [replaceFrom, hocc, List.length_cons, Nat.add_sub_cancel]
  rw [replaceFrom_skip, hlast]

theorem replaceFrom_edits {p : Pattern} (hp : EditsOccurrences rule p) (before : Option Char)
    (s : List Char) : Edits rule before s (replaceFrom p before 0 s) := by
  -- the search goes on behind an occurrence, so the induction is on the length of the text
  induction hn : s.length using Nat.strongRecOn generalizing s before with
  | ind n ih =>
    subst hn
    cases s with
    | nil => exact .nil
    | cons c cs =>
      cases hocc : p before (c :: cs) with
      | none =>
        simp only [replaceFrom, hocc]
        exact .copy c (ih _ (by simp) _ cs rfl)
      | some occ =>
        obtain ⟨n, v⟩ := occ
        obtain ⟨u, rest, hu, hs, rfl, hedits⟩ := hp _ _ _ _ hocc
        rw [hs] at hocc
        have hshorter : rest.length < (c :: cs).length := by
          rw [hs, List.length_append]
          have := List.length_pos_iff.2 hu
          omega
        have hrest := hedits _ (ih _ hshorter u.getLast? rest rfl)
        rwa [hs, replaceFrom_occurrence hu hocc, ← hs]

theorem flatMap_mapCode_edits {f : List Char → List Char}
    (hf : ∀ run, Edits rule none run (f run)) (hnil : f [] = []) (r : Region) (held s : List Char) :
    Edits rule none (held.reverse ++ s) ((segmentsFrom r held s).flatMap (Segment.mapCode f)) := by
  induction s generalizing r held with
  | nil =>
    rw [List.append_nil]
    cases r with
    | code =>
      rw [segmentsFrom, flatMap_consRun _ hnil]
      simpa [Segment.mapCode] using hf held.reverse
    | literal q => simpa [segmentsFrom, Segment.mapCode] using .refl none held.reverse
  | cons c cs ih =>
    cases r with
    | code =>
      cases hc : (role c).isQuote with
      | true =>
        obtain ⟨q, hq⟩ := Role.isQuote_iff.1 hc
        have hname := isNameChar_of_isQuote hc
        rw [segmentsFrom_code_quote hq, flatMap_consRun _ hnil]
        refine (hf held.reverse).append (NoWord.of_isNameChar_eq_false hname) ?_
        exact (ih (.literal q) [c]).of_before (.inr hname)
      | false =>
        rw [segmentsFrom_code_plain hc]
        simpa using ih .code (c :: held)
    | literal q =>
      by_cases hc : role c = .quote q
      · have hname := isNameChar_of_isQuote (Role.isQuote_iff.2 ⟨q, hc⟩)
        rw [segmentsFrom_literal_close hc, List.flatMap_cons, Segment.mapCode, List.reverse_cons,
          List.append_assoc]
        refine .copyAll (.copy c ?_)
        exact (ih .code []).of_before (.inl (NoWord.of_isNameChar_eq_false hname))
      · rw [segmentsFrom_literal_inner hc]
        simpa using ih (.literal q) (c :: held)

theorem mapCode_edits {p : Pattern} (hp : EditsOccurrences rule p) (s : List Char) :
    Edits rule none s (mapCode (replaceAll p) s) := by
  have hfront : (if startsInCode s then [] else replaceAll p []) = [] := ite_self _
  rw [mapCode_eq, hfront, List.nil_append]
  exact flatMap_mapCode_edits (replaceFrom_edits hp none) rfl .code [] s

/-! ### Occurrences of the patterns -/

theorem atBoundary_iff_noWord_left {before after : Option Char}
    (hafter : after.any Text.isWordChar = true) :
    Text.atBoundary before after = true ↔ NoWord before := by
  rw [Text.atBoundary, hafter, NoWord]
  cases before.any Text.isWordChar <;> decide

theorem atBoundary_iff_noWord_right {before after : Option Char}
    (hbefore : before.any Text.isWordChar = true) :
    Text.atBoundary before after = true ↔ NoWord after := by
  rw [Text.atBoundary, hbefore, NoWord]
  cases after.any Text.isWordChar <;> decide

/-- A whole word starts and ends with ASCII letters, however it is spelled: the letters for which
others may stand are inside. -/
theorem ends_isWordChar {word read : List Char} (hword : word ∈ wholeWords)
    (hread : read.map Text.keyChar = word) :
    read.head?.any Text.isWordChar = true ∧ read.getLast?.any Text.isWordChar = true := by
  have hends : ∀ word ∈ wholeWords,
      word.head?.any (fun c => Text.isWordChar c && c != 's' && c != 'k') = true ∧
        word.getLast?.any (fun c => Text.isWordChar c && c != 's' && c != 'k') = true := by decide
  have hstands : ∀ o : Option Char,
      (o.map Text.keyChar).any (fun c => Text.isWordChar c && c != 's' && c != 'k') = true →
        o.any Text.isWordChar = true := by
    intro o ho
    cases o with
    | none => cases ho
    | some c =>
      simp only [Option.map_some, Option.any_some, Bool.and_eq_true, bne_iff_ne] at ho
      exact Text.isWordChar_of_keyChar ho.1.1 ho.1.2 ho.2
  subst hread
  obtain ⟨hhead, hlast⟩ := hends _ hword
  rw [List.head?_map] at hhead
  rw [List.getLast?_map] at hlast
  exact ⟨hstands _ hhead, hstands _ hlast⟩

theorem atBoundary_left_iff {word read : List Char} (hword : word ∈ wholeWords)
    (hread : read.map Text.keyChar = word) {before : Option Char} :
    Text.atBoundary before read.head? = true ↔ NoWord before :=
  atBoundary_iff_noWord_left (ends_isWordChar hword hread).1

theorem atBoundary_right_iff {word read : List Char} (hword : word ∈ wholeWords)
    (hread : read.map Text.keyChar = word) {after : Option Char} :
    Text.atBoundary read.getLast? after = true ↔ NoWord after :=
  atBoundary_iff_noWord_right (ends_isWordChar hword hread).2

theorem letterPattern_edits {letter : Char} {replacement : List Char}
    (h : (rule, [letter], replacement) ∈ letterEdits) (hletter : Text.isWordChar letter = true) :
    EditsOccurrences rule (letterPattern letter replacement) := by
  intro before s n v hocc
  unfold letterPattern at hocc
  split at hocc
  · cases hocc
  · rename_i c cs
    split at hocc
    · rename_i hplace
      cases hocc
      simp only [Bool.and_eq_true, decide_eq_true_eq] at hplace
      obtain ⟨⟨rfl, hbefore⟩, hafter⟩ := hplace
      have hletter : (some c).any Text.isWordChar = true := hletter
      refine ⟨[c], cs, List.cons_ne_nil _ _, rfl, rfl, fun t ht => ?_⟩
      exact .edit (.letter h) (.inl ((atBoundary_iff_noWord_left hletter).1 hbefore))
        (.inl ((atBoundary_iff_noWord_right hletter).1 hafter)) ht
    · cases hocc

theorem wordEdits_wholeWords : ∀ e ∈ wordEdits, e.2.1 ∈ wholeWords := by decide

theorem wordPattern_edits {word replacement : List Char}
    (h : (rule, word, replacement) ∈ wordEdits) :
    EditsOccurrences rule (wordPattern word replacement) := by
  intro before s n v hocc
  obtain ⟨read, back, ⟨hread, rfl⟩, hafter, hbefore, rfl, rfl⟩ := wordPattern_eq_some_iff.1 hocc
  have hwhole := wordEdits_wholeWords _ h
  have hedit : Edit rule read v := .word (hread ▸ h)
  refine ⟨read, back, hedit.ne_nil, rfl, rfl, fun t ht => ?_⟩
  exact .edit hedit (.inl ((atBoundary_left_iff hwhole hread).1 hbefore))
    (.inl ((atBoundary_right_iff hwhole hread).1 hafter)) ht

theorem negation_edits : EditsOccurrences .negation negation := by
  intro before s n v hocc
  unfold negation at hocc
  split at hocc
  · rename_i read rest hs
    split at hocc
    · rename_i hbefore
      cases hocc
      obtain ⟨⟨hread, rfl⟩, hafter⟩ := Text.splitWholeKey?_eq_some_iff.1 hs
      have hbefore := (atBoundary_left_iff (by decide) hread).1 hbefore
      have hafter := (atBoundary_right_iff (by decide) hread).1 hafter
      have hrest := (List.takeWhile_append_dropWhile (p := Text.isBlank) (l := rest)).symm
      have hblanks : ∀ c ∈ rest.takeWhile Text.isBlank, Text.isBlank c = true :=
        List.all_eq_true.1 List.all_takeWhile
      generalize rest.takeWhile Text.isBlank = blanks at hrest hblanks ⊢
      generalize rest.dropWhile Text.isBlank = back at hrest
      subst hrest
      have hedit : Edit .negation (read ++ blanks) "!".toList := .negation hread hblanks
      refine ⟨read ++ blanks, back, hedit.ne_nil, by simp, by simp, fun t ht => ?_⟩
      rw [← List.append_assoc]
      refine .edit hedit (.inl hbefore) ?_ ht
      -- the piece ends with the word or with a blank
      cases hne : blanks with
      | nil => exact .inl (by simpa [hne] using hafter)
      | cons c cs =>
        rw [← hne, List.getLast?_append_of_ne_nil _ (by simp [hne])]
        refine .inr ?_
        cases hlast : blanks.getLast? with
        | none => rfl
        | some d =>
          exact Text.isNameChar_of_isSpace
            (Text.isSpace_of_isBlank (hblanks d (List.mem_of_getLast? hlast)))
    · cases hocc
  · cases hocc

theorem textPattern_edits {text replacement : List Char}
    (h : (rule, text, replacement) ∈ signEdits) :
    EditsOccurrences rule (textPattern text replacement) := by
  have hends : ∀ e ∈ signEdits, e.2.1.head?.any Text.isNameChar = false ∧
      e.2.1.getLast?.any Text.isNameChar = false := by decide
  intro before s n v hocc
  unfold textPattern at hocc
  split at hocc
  · rename_i hstarts
    cases hocc
    obtain ⟨rest, rfl⟩ := List.isPrefixOf_iff_prefix.1 hstarts
    refine ⟨text, rest, (Edit.sign h).ne_nil, rfl, rfl, fun t ht => ?_⟩
    exact .edit (.sign h) (.inr (hends _ h).1) (.inr (hends _ h).2) ht
  · cases hocc

/-- The neighbours of an equality sign are part of its occurrence, but they are copied. -/
theorem equalitySign_edits {lead rest v : List Char} {n : Nat} (before : Option Char)
    (h : equalitySign lead rest = some (n, v)) :
    ∃ u back, u ≠ [] ∧ lead ++ '=' :: rest = u ++ back ∧ n = u.length ∧
      ∀ t, Edits .equality u.getLast? back t →
        Edits .equality before (lead ++ '=' :: rest) (v ++ t) := by
  have hsign : ∀ {back t}, Edits .equality (some '=') back t →
      Edits .equality before (lead ++ '=' :: back) (lead ++ ("==".toList ++ t)) := fun ht =>
    .copyAll (.edit (u := ['=']) (.sign (by decide)) (.inr (by decide)) (.inr (by decide)) ht)
  cases rest with
  | nil =>
    cases h
    refine ⟨lead ++ ['='], [], by simp, by simp, by simp, fun t ht => ?_⟩
    rw [List.getLast?_concat] at ht
    rw [List.append_assoc]
    exact hsign ht
  | cons c rest =>
    rw [equalitySign] at h
    split at h
    · cases h
    · cases h
      refine ⟨lead ++ ['=', c], rest, by simp, by simp, by simp, fun t ht => ?_⟩
      have hlast : (lead ++ ['=', c]).getLast? = some c := by simp
      rw [hlast] at ht
      rw [List.append_assoc, List.append_assoc]
      exact hsign (.copy c ht)

theorem equality_edits : EditsOccurrences .equality equality := by
  intro before s n v h
  unfold equality at h
  split at h
  · exact equalitySign_edits none h
  · split at h
    · cases h
    · exact equalitySign_edits _ h
  · cases h

theorem eq_append_of_splitCall? {s name : List Char} {n : Nat} (h : splitCall? s = some (name, n)) :
    ∃ blanks back, s = name ++ (blanks ++ '(' :: back) ∧
      name.map Text.keyChar ∈ intrinsics.map (·.1) ∧
      (∀ c ∈ blanks, Text.isBlank c = true) ∧ n = (name ++ (blanks ++ ['('])).length := by
  obtain ⟨⟨word, member⟩, hword, hcall⟩ := List.exists_of_findSome?_eq_some h
  simp only at hcall
  split at hcall
  · rename_i read rest hs
    obtain ⟨hread, rfl⟩ := Text.splitKey?_eq_some_iff.1 hs
    split at hcall
    · rename_i back hrest
      cases hcall
      refine ⟨rest.takeWhile Text.isBlank, back, ?_, ?_, ?_, ?_⟩
      · rw [← hrest, Text.skipBlanks, List.takeWhile_append_dropWhile]
      · exact hread ▸ List.mem_map_of_mem hword
      · exact List.all_eq_true.1 List.all_takeWhile
      · simp [Nat.add_assoc]
    · cases hcall
  · cases hcall

theorem call_edits {before : Option Char} {name blanks back t : List Char}
    (hname : name.map Text.keyChar ∈ intrinsics.map (·.1))
    (hblanks : ∀ c ∈ blanks, Text.isBlank c = true) (hbefore : NoWord before)
    (h : Edits .intrinsics (some '(') back t) :
    Edits .intrinsics before (name ++ (blanks ++ '(' :: back)) (memberFor name ++ '(' :: t) := by
  have hlast : (name ++ (blanks ++ ['('])).getLast? = some '(' := by simp
  rw [← hlast] at h
  have hedit := h.edit (.call hname hblanks) (.inl hbefore) (.inr (by rw [hlast]; decide))
  simpa using hedit

theorem intrinsicCall_edits : EditsOccurrences .intrinsics intrinsicCall := by
  intro before s n v h
  unfold intrinsicCall at h
  split at h
  · rename_i name n hcall
    cases h
    obtain ⟨blanks, back, rfl, hname, hblanks, rfl⟩ := eq_append_of_splitCall? hcall
    refine ⟨name ++ (blanks ++ ['(']), back, by simp, by simp, rfl, fun t ht => ?_⟩
    rw [List.append_assoc]
    exact call_edits hname hblanks rfl (by simpa using ht)
  · split at h
    · cases h
    · rename_i c cs _
      split at h
      · cases h
      · rename_i hc
        obtain ⟨⟨name, n⟩, hcall, h⟩ := Option.map_eq_some_iff.1 h
        cases h
        obtain ⟨blanks, back, rfl, hname, hblanks, rfl⟩ := eq_append_of_splitCall? hcall
        -- the character before the name is part of the occurrence, but it is copied
        have hbefore : NoWord (some c) := by
          by_contra hword
          have hword : Text.isWordChar c = true := by simpa [NoWord] using hword
          exact hc (by simp [Text.isLooseWordChar_iff.2 (.inl hword)])
        have hlast : (c :: (name ++ (blanks ++ ['(']))).getLast? = some '(' := by
          rw [← List.cons_append, ← List.append_assoc, List.getLast?_concat]
        refine ⟨c :: (name ++ (blanks ++ ['('])), back, by simp, by simp, rfl, fun t ht => ?_⟩
        rw [hlast] at ht
        rw [List.cons_append, List.cons_append, List.append_assoc]
        exact .copy c (call_edits hname hblanks hbefore ht)

/-! ### Calls of `azar` -/

theorem eq_closing_paren {c : Char} (h : role c = .closing .round) : c = ')' := by
  change Role.ofCode c.toNat = _ at h
  unfold Role.ofCode at h
  split at h
  case h_4 hc => exact Char.toNat_inj.1 hc
  all_goals cases h

theorem any_isNameChar_getLast?_paren {paren : Char} (hparen : Text.isNameChar paren = false)
    {spaces : List Char} (hspaces : ∀ c ∈ spaces, Text.isSpace c = true) (x : List Char) :
    (x ++ paren :: spaces).getLast?.any Text.isNameChar = false := by
  rw [List.getLast?_append_of_ne_nil _ (List.cons_ne_nil _ _)]
  cases hlast : (paren :: spaces).getLast? with
  | none => rfl
  | some c =>
    obtain rfl | hc := List.mem_cons.1 (List.mem_of_getLast? hlast)
    · exact hparen
    · exact Text.isNameChar_of_isSpace (hspaces c hc)

/-- Replacing the calls of `azar` edits the text: the name with its parenthesis, and the
parenthesis that closes the call. -/
theorem random_edits (s : List Char) : Edits .random none s (random s) := by
  fun_induction random s with
  | case1 s => exact .refl none s
  | case2 s front argument hs hclose => exact .refl none s
  | case3 s front argument hs inside rest hclose _ _ _ ihInside ihRest =>
    obtain ⟨read, blanks, rfl, hread, hblanks, hbefore⟩ := eq_append_of_breakAzar? hs
    obtain ⟨c, hc, -, rfl⟩ := eq_append_of_closeParen? hclose
    obtain rfl := eq_closing_paren hc
    obtain ⟨left, right, hleft, hright, hinside⟩ := Text.exists_trim_eq inside
    have hbefore := (atBoundary_left_iff (by decide) hread).1 hbefore
    have hopening := any_isNameChar_getLast?_paren (by decide : Text.isNameChar '(' = false) hleft
      (read ++ blanks)
    have hclosing : (right ++ [')']).head?.any Text.isNameChar = false := by
      cases right with
      | nil => decide
      | cons c right => exact Text.isNameChar_of_isSpace (hright c List.mem_cons_self)
    have hclosed := any_isNameChar_getLast?_paren (by decide : Text.isNameChar ')' = false)
      (List.forall_mem_nil _) right
    rw [List.append_assoc] at hopening
    -- the call from its closing parenthesis on, then from its argument on, then as a whole
    have hend (before : Option Char) :
        Edits .random before ((right ++ [')']) ++ rest) ("))".toList ++ random rest) :=
      .edit (.closing hright) (.inr hclosing) (.inr hclosed)
        (ihRest.of_before (.inl (.of_any_isNameChar hclosed)))
    have hhead : NoWord ((right ++ [')']) ++ rest).head? := by
      rw [List.head?_append_of_ne_nil _ (by simp)]
      exact .of_any_isNameChar hclosing
    have hargument := ihInside.append hhead (hend _)
    have hwhole : Edits .random none (front ++ ((read ++ (blanks ++ '(' :: left)) ++
        (Text.trim inside ++ ((right ++ [')']) ++ rest)))) _ :=
      .copyAll (.edit (.random hread hblanks hleft) (.inl hbefore) (.inr hopening)
        (hargument.of_before (.inl (.of_any_isNameChar hopening))))
    have hcall : front ++ (read ++ (blanks ++ '(' :: (inside ++ ')' :: rest))) =
        front ++ ((read ++ (blanks ++ '(' :: left)) ++
          (Text.trim inside ++ ((right ++ [')']) ++ rest))) := by
      conv_lhs => rw [hinside]
      simp
    rw [hcall]
    simpa only [List.append_assoc] using hwhole

/-! ### Rules -/

/-- **Every rule edits a text,** in one pass or in two. -/
theorem Rule.apply_edits (rule : Rule) (s : List Char) :
    Relation.ReflTransGen (Edits rule none) s (rule.apply s) := by
  cases rule with
  | booleans =>
    have hpass : ∀ {word replacement : List Char}, (Rule.booleans, word, replacement) ∈ wordEdits →
        ∀ s, Edits .booleans none s (replaceAll (wordPattern word replacement) s) := fun h s =>
      replaceFrom_edits (wordPattern_edits h) none s
    exact .tail (.single (hpass (by decide) s)) (hpass (by decide) _)
  | conjunction =>
    exact .single (mapCode_edits (letterPattern_edits (by decide) (by decide)) s)
  | disjunction =>
    exact .single (mapCode_edits (letterPattern_edits (by decide) (by decide)) s)
  | negation => exact .single (mapCode_edits negation_edits s)
  | inequality => exact .single (mapCode_edits (textPattern_edits (by decide)) s)
  | equality => exact .single (mapCode_edits equality_edits s)
  | remainder => exact .single (mapCode_edits (wordPattern_edits (by decide)) s)
  | random => exact .single (random_edits s)
  | power => exact .single (mapCode_edits (textPattern_edits (by decide)) s)
  | intrinsics => exact .single (mapCode_edits intrinsicCall_edits s)

theorem applyRules_edits (rules : List Rule) (s : List Char) :
    Relation.ReflTransGen (EditsByOneOf rules) s (applyRules rules s) := by
  induction rules generalizing s with
  | nil => exact .refl
  | cons rule rules ih =>
    have hfirst : Relation.ReflTransGen (EditsByOneOf (rule :: rules)) s (rule.apply s) :=
      Relation.ReflTransGen.mono (fun _ _ h => ⟨rule, List.mem_cons_self, h⟩) _ _
        (rule.apply_edits s)
    refine hfirst.trans (Relation.ReflTransGen.mono ?_ _ _ (ih (rule.apply s)))
    exact fun _ _ ⟨r, hr, h⟩ => ⟨r, List.mem_cons_of_mem _ hr, h⟩

end Expr

end Pseudocode
