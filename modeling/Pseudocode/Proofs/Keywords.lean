import Pseudocode.LineKind
import Pseudocode.Proofs.LetterCase
import Pseudocode.Proofs.SourceLine
import Pseudocode.Proofs.Words
import Pseudocode.Statement.Declaration
import Pseudocode.Statement.Dimension
import Pseudocode.Statement.Input

/-!
# Recognising keywords and taking them off

A line is recognised by a keyword in its lower-case code, where no character of a name may follow.
It is converted from its code as it is written, where the keyword is read in any letter case and the
border of a word is that of an ASCII word.  The two agree on every line without the dotted capital
I, whose lower case is an `i` for which it does not stand.

* `Text.TakesKey` : a keyword is read off the front of a text, and nothing else.
* `Text.takesKey_of_hasKeyword`, `Text.takesWholeKey_of_hasKeyword` : what is recognised is read.
* `Header.exists_of_afterUntil?_lower` : the same for the two words that end a loop.
* `LineKind.TakesKeyword` : the line is converted from what follows its keyword.
* `takesKeyword_of_fits` : **a line that is recognised by a keyword is converted without it.**
-/

namespace Pseudocode

namespace Text

variable {s word read rest : List Char}

/-! ### Reading what was recognised -/

/-- The reader takes the keyword off the front of the text: what it takes is the keyword up to case,
and `rest` follows. -/
def TakesKey (reader : List Char → Option (List Char × List Char)) (key s rest : List Char) :
    Prop :=
  ∃ read, reader s = some (read, rest) ∧ s = read ++ rest ∧ SameFold read key

theorem getLast?_any_of_map {f : Char → Char} {p q : Char → Bool}
    (h : (read.map f).getLast?.any q = true) (hpq : ∀ c ∈ read, q (f c) = true → p c = true) :
    read.getLast?.any p = true := by
  rw [List.getLast?_map] at h
  cases hc : read.getLast? with
  | none =>
    rw [hc] at h
    cases h
  | some c =>
    rw [hc] at h
    exact hpq c (List.mem_of_getLast? hc) h

/-- What is read in lower case ends with a letter, if the keyword ends with one other than `k`. -/
theorem getLast?_any_of_lower (hdotted : 'İ' ∉ read) (hread : lower read = word)
    (hlast : word.getLast?.any (fun k => isWordChar k && k != 'k') = true) :
    read.getLast?.any isWordChar = true := by
  subst hread
  refine getLast?_any_of_map hlast fun c hc hk => ?_
  simp only [Bool.and_eq_true, bne_iff_ne, ne_eq] at hk
  exact isWordChar_of_lowerChar (fun heq => hdotted (heq ▸ hc)) hk.1 hk.2 rfl

/-- What is read as a keyword ends with a letter, if the last letter of the keyword is one for which
no other character stands. -/
theorem getLast?_any_of_keyChar {key : List Char} (hread : read.map keyChar = key)
    (hlast : key.getLast?.any (fun k => isWordChar k && k != 's' && k != 'k') = true) :
    read.getLast?.any isWordChar = true := by
  subst hread
  refine getLast?_any_of_map hlast fun c hc hk => ?_
  simp only [Bool.and_eq_true, bne_iff_ne, ne_eq] at hk
  exact isWordChar_of_keyChar hk.1.1 hk.1.2 hk.2

theorem getLast?_any_lower (h : read.getLast?.any isWordChar = true) :
    (lower read).getLast?.any isWordChar = true := by
  rw [lower, List.getLast?_map]
  cases hc : read.getLast? with
  | none =>
    rw [hc] at h
    cases h
  | some c =>
    rw [hc] at h
    exact isWordChar_lowerChar h

theorem startsBlank_lower (s : List Char) : startsBlank (lower s) = startsBlank s := by
  cases s with
  | nil => rfl
  | cons c cs => exact isBlank_lowerChar c

/-- Behind a letter, the border of a word stands where no word character follows. -/
theorem atBoundary_of_any {before after : Option Char} (h : before.any isWordChar = true) :
    atBoundary before after = true ↔ after.any isWordChar = false := by
  rw [atBoundary, h]
  cases after.any isWordChar <;> decide

theorem TakesKey.stripKey_eq {key : List Char} (h : TakesKey (splitKey? key) key s rest) :
    stripKey key s = trim rest := by
  obtain ⟨read, hread, -⟩ := h
  simp only [stripKey, hread]

theorem TakesKey.stripWholeKey_eq {key : List Char} (h : TakesKey (splitWholeKey? key) key s rest) :
    stripWholeKey key s = trim rest := by
  obtain ⟨read, hread, -⟩ := h
  simp only [stripWholeKey, hread]

/-- A keyword that is recognised is read, whatever follows it. -/
theorem takesKey_of_hasKeyword (hdotted : 'İ' ∉ s) (hword : isAsciiWord word = true)
    (h : hasKeyword word (lower s) = true) : ∃ rest, TakesKey (splitKey? word) word s rest := by
  obtain ⟨read, rest, hs, -, hread, -⟩ := exists_of_hasKeyword hdotted hword h
  exact ⟨rest, read, splitKey?_eq_some_iff.2 ⟨hread, hs⟩, hs, sameFold_of_keyChar hword hread⟩

/-- A keyword that is recognised is read as a whole word: the border of an ASCII word stands behind
it, since no character of a name follows. -/
theorem takesWholeKey_of_hasKeyword (hdotted : 'İ' ∉ s) (hword : isAsciiWord word = true)
    (hlast : word.getLast?.any (fun k => isWordChar k && k != 'k') = true)
    (h : hasKeyword word (lower s) = true) :
    ∃ rest, TakesKey (splitWholeKey? word) word s rest := by
  obtain ⟨read, rest, rfl, hlower, hread, hrest⟩ := exists_of_hasKeyword hdotted hword h
  have hletter := getLast?_any_of_lower (fun hmem => hdotted (List.mem_append_left _ hmem)) hlower
    hlast
  refine ⟨rest, read, splitWholeKey?_eq_some_iff.2 ⟨⟨hread, rfl⟩, ?_⟩, rfl,
    sameFold_of_keyChar hword hread⟩
  exact (atBoundary_of_any hletter).2 hrest

theorem splitKey?_of_lower {key read' rest' : List Char} (hdotted : 'İ' ∉ s)
    (hkey : isAsciiWord key = true) (h : splitKey? key (lower s) = some (read', rest')) :
    ∃ read rest, s = read ++ rest ∧ lower read = read' ∧ lower rest = rest' ∧
      read.map keyChar = key := by
  obtain ⟨hread, hs⟩ := splitKey?_eq_some_iff.1 h
  obtain ⟨read, rest, rfl, hlower, hrest⟩ := List.map_eq_append_iff.1 hs
  refine ⟨read, rest, rfl, hlower, hrest, ?_⟩
  rw [← hread, ← hlower, List.map_map]
  refine List.map_congr_left fun c hc => ?_
  have hne : c ≠ 'İ' := fun heq => hdotted (heq ▸ List.mem_append_left _ hc)
  refine keyChar_lowerChar hne (ascii_of_isAsciiWord hkey _ ?_)
  rw [← hread, ← hlower]
  exact List.mem_map_of_mem (List.mem_map_of_mem hc)

end Text

open Text

/-! ### The end of a loop -/

namespace Header

/-- The text starts with the two words, in some letter case and with blanks between them, and `rest`
follows. -/
structure StartsUntil (s rest : List Char) : Prop where
  /-- The words, and the blanks between them. -/
  exists_words : ∃ first gap second, s = first ++ (gap ++ (second ++ rest)) ∧
    SameFold first "hasta".toList ∧ gap ≠ [] ∧ (∀ c ∈ gap, isBlank c = true) ∧
    SameFold second "que".toList
  /-- No letter of an ASCII word follows. -/
  border : rest.head?.any isWordChar = false

theorem exists_of_afterUntil?_lower {s : List Char} (hdotted : 'İ' ∉ s)
    (h : (afterUntil? (lower s)).isSome = true) :
    ∃ rest, afterUntil? s = some rest ∧ StartsUntil s rest := by
  have hfirst : isAsciiWord "hasta".toList = true := by decide
  have hsecond : isAsciiWord "que".toList = true := by decide
  obtain ⟨after, hafter⟩ := Option.isSome_iff_exists.1 h
  simp only [afterUntil?, Option.bind_eq_bind, Option.bind_eq_some_iff, Prod.exists] at hafter
  obtain ⟨_, _, hkey, _, hgap, _, _, hwhole, -⟩ := hafter
  obtain ⟨first, s₁, rfl, -, rfl, hread₁⟩ := splitKey?_of_lower hdotted hfirst hkey
  obtain ⟨_, hs₁, hne, hblank, hstart⟩ := exists_of_skipSomeBlanks? hgap
  obtain ⟨gap, s₂, rfl, rfl, rfl⟩ := List.map_eq_append_iff.1 hs₁
  have hdotted₂ : 'İ' ∉ s₂ := fun hmem => hdotted (by simp [hmem])
  obtain ⟨hkey₂, hborder⟩ := Option.filter_eq_some_iff.1 hwhole
  obtain ⟨second, rest, rfl, rfl, rfl, hread₂⟩ := splitKey?_of_lower hdotted₂ hsecond hkey₂
  -- the last letter of the second word is one that no other character stands for
  have hletter : second.getLast?.any isWordChar = true := getLast?_any_of_keyChar hread₂ (by decide)
  have hrest : rest.head?.any isWordChar = false :=
    head?_lower_any ((atBoundary_of_any (getLast?_any_lower hletter)).1 hborder)
  have hgapBlank : ∀ c ∈ gap, isBlank c = true := fun c hc => by
    rw [← isBlank_lowerChar]
    exact hblank _ (List.mem_map_of_mem hc)
  have hgapNe : gap ≠ [] := fun hnil => hne (by rw [hnil]; rfl)
  refine ⟨rest, ?_, ⟨first, gap, second, rfl, sameFold_of_keyChar hfirst hread₁, hgapNe, hgapBlank,
    sameFold_of_keyChar hsecond hread₂⟩, hrest⟩
  have hread : splitKey? "hasta".toList (first ++ (gap ++ (second ++ rest))) =
      some (first, gap ++ (second ++ rest)) := splitKey?_eq_some_iff.2 ⟨hread₁, rfl⟩
  have hskip : skipSomeBlanks? (gap ++ (second ++ rest)) = some (second ++ rest) :=
    skipSomeBlanks?_append hgapBlank hgapNe (startsBlank_lower _ ▸ hstart)
  have hword : splitWholeKey? "que".toList (second ++ rest) = some (second, rest) :=
    splitWholeKey?_eq_some_iff.2 ⟨⟨hread₂, rfl⟩, (atBoundary_of_any hletter).2 hrest⟩
  simp only [afterUntil?, hread, hskip, hword, Option.bind_eq_bind, Option.bind_some]
  rfl

theorem branch_eq (line : List Char) :
    branch line = "if (".toList ++
      Expr.condition (stripLastKey "entonces".toList (stripWholeKey "si".toList line)) ++
        ") \x7b".toList := rfl

theorem whileLoop_eq (line : List Char) :
    whileLoop line = "while (".toList ++
      Expr.condition (stripLastKey "hacer".toList (stripWholeKey "mientras".toList line)) ++
        ") \x7b".toList := rfl

theorem untilLoop_eq (line : List Char) :
    untilLoop line = "\x7d while (!(".toList ++
      Expr.condition (trim ((afterUntil? line).getD line)) ++ "));".toList := rfl

end Header

/-! ### Lines -/

namespace Statement

/-- A type stands behind a blank, so it does not start in a keyword. -/
theorem beforeType_append {read : List Char} (h : ∀ c ∈ read, isBlank c = false)
    (rest : List Char) : beforeType (read ++ rest) = read ++ beforeType rest := by
  induction read with
  | nil => rfl
  | cons c read ih =>
    obtain ⟨hc, hread⟩ := List.forall_mem_cons.1 h
    have hstart : startsBlank (c :: (read ++ rest)) = false := hc
    have htype : startsWithType (c :: (read ++ rest)) = false := by
      rw [startsWithType, skipSomeBlanks?_eq_none hstart]
    rw [List.cons_append, beforeType, htype, if_neg Bool.false_ne_true, ih hread, List.cons_append]

theorem outputKeywords_apart :
    outputKeywords.Pairwise fun key other => ¬ key <+: other ∧ ¬ other <+: key := by
  decide

end Statement

open Statement

namespace LineKind

/-- A line of a kind that starts with a keyword is converted from what follows the keyword.  The
keyword is read at the front of the line, as a whole and whatever follows it. -/
def TakesKeyword (code : List Char) : LineKind → Prop
  | declaration => ∃ rest, TakesKey (splitKey? "definir".toList) "definir".toList code rest ∧
      TakesKey (splitKey? "definir".toList) "definir".toList (beforeType code) (beforeType rest) ∧
      declaredNames code = (Scan.splitTopLevel ',' (trim (beforeType rest))).filter (!·.isEmpty)
  | dimension => ∃ rest, TakesKey (splitKey? "dimension".toList) "dimension".toList code rest ∧
      dimensionItems code = Scan.splitTopLevel ',' (trim rest)
  | input => ∃ rest, TakesKey (splitKey? "leer".toList) "leer".toList code rest ∧
      inputTargets code = (Scan.splitTopLevel ',' (trim rest)).filter (!·.isEmpty)
  | output => ∃ key ∈ outputKeywords, ∃ rest,
      TakesKey (splitAnyKey? outputKeywords) key code rest ∧
      outputArguments code = trim ((afterSameLine? rest).getD rest)
  | branch => ∃ rest, TakesKey (splitWholeKey? "si".toList) "si".toList code rest ∧
      Header.branch code = "if (".toList ++
        Expr.condition (stripLastKey "entonces".toList (trim rest)) ++ ") \x7b".toList
  | whileLoop => ∃ rest, TakesKey (splitWholeKey? "mientras".toList) "mientras".toList code rest ∧
      Header.whileLoop code = "while (".toList ++
        Expr.condition (stripLastKey "hacer".toList (trim rest)) ++ ") \x7b".toList
  | untilLoop => ∃ rest, Header.afterUntil? code = some rest ∧ Header.StartsUntil code rest ∧
      Header.untilLoop code = "\x7d while (!(".toList ++ Expr.condition (trim rest) ++ "));".toList
  | _ => True

variable {l : SourceLine}

theorem takesKeyword_declaration (hdotted : 'İ' ∉ l.code) (hlower : l.lower = lower l.code)
    (h : l.hasKeyword "definir" = true) : declaration.TakesKeyword l.code := by
  rw [SourceLine.hasKeyword, hlower] at h
  obtain ⟨rest, read, hsplit, hcode, hfold⟩ := takesKey_of_hasKeyword hdotted (by decide) h
  have hread := (splitKey?_eq_some_iff.1 hsplit).1
  have hletters : "definir".toList.all (!isBlank ·) = true := by decide
  have hblank : ∀ c ∈ read, isBlank c = false := fun c hc => by
    have hmem : keyChar c ∈ "definir".toList := hread ▸ List.mem_map_of_mem hc
    exact isBlank_of_keyChar (by simpa using List.all_eq_true.1 hletters _ hmem)
  have hbefore : beforeType l.code = read ++ beforeType rest := by
    rw [hcode, beforeType_append hblank]
  have hkey : TakesKey (splitKey? "definir".toList) "definir".toList (beforeType l.code)
      (beforeType rest) := ⟨read, splitKey?_eq_some_iff.2 ⟨hread, hbefore⟩, hbefore, hfold⟩
  refine ⟨rest, ⟨read, hsplit, hcode, hfold⟩, hkey, ?_⟩
  rw [declaredNames, hkey.stripKey_eq]

theorem takesKeyword_output (hdotted : 'İ' ∉ l.code) (hlower : l.lower = lower l.code)
    (h : output.fits l = true) : output.TakesKeyword l.code := by
  have hkeys : ∃ key ∈ outputKeywords, hasKeyword key (lower l.code) = true := by
    simp only [fits, SourceLine.hasKeyword, hlower, Bool.or_eq_true] at h
    obtain (h | h) | h := h
    · exact ⟨_, by decide, h⟩
    · exact ⟨_, by decide, h⟩
    · exact ⟨_, by decide, h⟩
  obtain ⟨key, hmem, hkey⟩ := hkeys
  have hascii : outputKeywords.all isAsciiWord = true := by decide
  obtain ⟨rest, read, hsplit, hcode, hfold⟩ :=
    takesKey_of_hasKeyword hdotted (List.all_eq_true.1 hascii key hmem) hkey
  have hany : splitAnyKey? outputKeywords l.code = some (read, rest) := by
    rw [hcode]
    exact splitAnyKey?_append outputKeywords_apart hmem (splitKey?_eq_some_iff.1 hsplit).1 rest
  refine ⟨key, hmem, rest, ⟨read, hany, hcode, hfold⟩, ?_⟩
  simp only [outputArguments, hany]

end LineKind

theorem SourceLine.lower_of_mem_sourceLines {first : Int} {src : List Char} {l : SourceLine}
    (h : l ∈ sourceLines first src) : l.lower = Text.lower l.code := by
  obtain ⟨i, raw, -, hl⟩ := mem_ofRaws_iff.1 h
  obtain ⟨-, rfl⟩ := ofText?_eq_some_iff.1 hl
  rfl

/-- **A line that is recognised by a keyword is converted without it.**  If the lower-case code of a
line without the dotted capital I has the form of a kind that starts with a keyword, the keyword is
read off the front of the code as it is written, and the line is converted from what follows. -/
theorem takesKeyword_of_fits {first : Int} {src : List Char} {l : SourceLine} {kind : LineKind}
    (hl : l ∈ sourceLines first src) (hdotted : 'İ' ∉ l.code) (hfits : kind.fits l = true) :
    kind.TakesKeyword l.code := by
  have hlower := SourceLine.lower_of_mem_sourceLines hl
  cases kind with
  | declaration => exact LineKind.takesKeyword_declaration hdotted hlower hfits
  | output => exact LineKind.takesKeyword_output hdotted hlower hfits
  | dimension =>
    have h : hasKeyword "dimension".toList l.lower = true := hfits
    rw [hlower] at h
    obtain ⟨rest, hkey⟩ := takesKey_of_hasKeyword hdotted (by decide) h
    refine ⟨rest, hkey, ?_⟩
    rw [dimensionItems, hkey.stripKey_eq]
  | input =>
    have h : hasKeyword "leer".toList l.lower = true := hfits
    rw [hlower] at h
    obtain ⟨rest, hkey⟩ := takesKey_of_hasKeyword hdotted (by decide) h
    refine ⟨rest, hkey, ?_⟩
    rw [inputTargets, hkey.stripKey_eq]
  | branch =>
    have h : hasKeyword "si".toList l.lower = true := hfits
    rw [hlower] at h
    obtain ⟨rest, hkey⟩ := takesWholeKey_of_hasKeyword hdotted (by decide) (by decide) h
    refine ⟨rest, hkey, ?_⟩
    rw [Header.branch_eq, hkey.stripWholeKey_eq]
  | whileLoop =>
    have h : hasKeyword "mientras".toList l.lower = true := hfits
    rw [hlower] at h
    obtain ⟨rest, hkey⟩ := takesWholeKey_of_hasKeyword hdotted (by decide) (by decide) h
    refine ⟨rest, hkey, ?_⟩
    rw [Header.whileLoop_eq, hkey.stripWholeKey_eq]
  | untilLoop =>
    have h : (Header.afterUntil? l.lower).isSome = true := hfits
    rw [hlower] at h
    obtain ⟨rest, hafter, hstarts⟩ := Header.exists_of_afterUntil?_lower hdotted h
    refine ⟨rest, hafter, hstarts, ?_⟩
    rw [Header.untilLoop_eq, hafter, Option.getD_some]
  | _ => trivial

/-- A line is spelled with the long s, a tab stands between its words, and a parenthesis follows
them. -/
theorem takesKeyword_of_long_s :
    let src := "Leer a\nHAſTA\tQue(x = K); // b".toList
    let l : SourceLine := ⟨2, "HAſTA\tQue(x = K); // b".toList, "HAſTA\tQue(x = K)".toList,
      "haſta\tque(x = k)".toList⟩
    (l ∈ sourceLines 1 src ∧ 'İ' ∉ l.code ∧ LineKind.untilLoop.fits l = true) ∧
      LineKind.untilLoop.TakesKeyword l.code := by
  intro src l
  have hl : l ∈ sourceLines 1 src := by decide +revert +kernel
  have hdotted : 'İ' ∉ l.code := by decide +revert +kernel
  have hfits : LineKind.untilLoop.fits l = true := by decide +revert +kernel
  exact ⟨⟨hl, hdotted, hfits⟩, takesKeyword_of_fits hl hdotted hfits⟩

/-- The dotted capital I is taken for a letter of a keyword in lower case only. -/
example :
    let l : SourceLine := ⟨1, "Defİnir x".toList, "Defİnir x".toList, "definir x".toList⟩
    l ∈ sourceLines 1 "Defİnir x".toList ∧ LineKind.declaration.fits l = true ∧
      declaredNames l.code = ["Defİnir x".toList] := by
  decide +kernel

end Pseudocode
