import Mathlib.Data.List.Find
import Pseudocode.Dispatch
import Pseudocode.Proofs.LetterCase
import Pseudocode.Proofs.Words

/-!
# The first word of a line

Most kinds of lines are recognised by how the line starts: by a keyword that is a whole word, by a
word that is the whole line, by a terminator whose two words may stand apart, or by the two words
that end a loop.  What all of them look at is the first word of the line, where the words of a
terminator count as one.  No word belongs to two kinds, so a line has the form of one of them at
most, and it does not matter in which order they are tried.

* `SourceLine.firstWord` : the first word of a line.
* `LineKind.words` : the first words of the lines of a kind.
* `LineKind.firstWord_mem_words` : **a line is recognised by its first word.**
* `LineKind.eq_of_mem_words` : no word belongs to two kinds.
* `LineContext.convertLine_of_any_order` : **the order of these kinds does not matter.**
-/

namespace Pseudocode

open Text

/-! ### First words -/

namespace SourceLine

variable {l : SourceLine} {word : String}

/-- The first word of a line, in the letters of keywords.  The two words of a terminator count as
one. -/
def firstWord (l : SourceLine) : List Char :=
  ((closerName l.lower).takeWhile isNameChar).map keyChar

/-- A word that is spelled in any letter case, and that no character of a name follows, is the first
word. -/
theorem firstWord_eq {read rest word : List Char} (hword : isPlainWord word = true)
    (hread : read.map keyChar = word) (h : closerName l.lower = read ++ rest)
    (hrest : rest.head?.any isNameChar = false) : l.firstWord = word := by
  have hletters : ∀ c ∈ read, isNameChar c = true := fun c hc =>
    isNameChar_of_isLooseWordChar (isLooseWordChar_of_isPlainWord hword hread c hc)
  rw [firstWord, h, takeWhile_run_append hletters hrest, hread]

/-- A text that starts with another letter than terminators do has no words to join. -/
theorem closerName_of_spelled {read word : List Char} (hread : read.map keyChar = word)
    (hfirst : word.head?.any (· != 'f') = true) (rest : List Char) :
    closerName (read ++ rest) = read ++ rest := by
  subst hread
  cases read with
  | nil => cases hfirst
  | cons c read =>
    refine if_neg fun hfin => ?_
    obtain ⟨behind, heq⟩ := List.isPrefixOf_iff_prefix.1 hfin
    have hc : some 'f' = some c := congrArg List.head? heq
    cases hc
    have hother : (keyChar 'f' != 'f') = true := hfirst
    exact absurd hother (by decide)

theorem firstWord_of_hasKeyword (hword : isPlainWord word.toList = true)
    (hfirst : word.toList.head?.any (· != 'f') = true) (h : l.hasKeyword word = true) :
    l.firstWord = word.toList := by
  simp only [hasKeyword, Text.hasKeyword, Bool.and_eq_true, List.isPrefixOf_iff_prefix,
    Bool.not_eq_true'] at h
  obtain ⟨⟨rest, hrest⟩, hnext⟩ := h
  rw [← hrest, List.drop_left] at hnext
  have hspelled := map_keyChar_of_isPlainWord hword
  refine firstWord_eq hword hspelled ?_ hnext
  rw [← hrest, closerName_of_spelled hspelled hfirst]

theorem hasKeyword_of_lower_eq (h : l.lower = word.toList) : l.hasKeyword word = true := by
  simp [hasKeyword, Text.hasKeyword, h]

theorem firstWord_of_isCloser (hword : isPlainWord word.toList = true)
    (h : l.isCloser word = true) : l.firstWord = word.toList := by
  have hname : closerName l.lower = word.toList ++ [] := by
    rw [List.append_nil]
    exact beq_iff_eq.1 h
  exact firstWord_eq hword (map_keyChar_of_isPlainWord hword) hname rfl

/-- A blank is no character of a name, so the first of the two words that end a loop is the first
word of the line. -/
theorem firstWord_of_afterUntil? (h : (Header.afterUntil? l.lower).isSome = true) :
    l.firstWord = "hasta".toList := by
  obtain ⟨after, hafter⟩ := Option.isSome_iff_exists.1 h
  simp only [Header.afterUntil?, Option.bind_eq_bind, Option.bind_eq_some_iff, Prod.exists]
    at hafter
  obtain ⟨read, rest, hkey, behind, hskip, -⟩ := hafter
  obtain ⟨hread, hlower⟩ := splitKey?_eq_some_iff.1 hkey
  obtain ⟨gap, rfl, hne, hblank, -⟩ := exists_of_skipSomeBlanks? hskip
  obtain ⟨c, gap, rfl⟩ := List.exists_cons_of_ne_nil hne
  have hname : closerName l.lower = read ++ c :: (gap ++ behind) := by
    rw [hlower, closerName_of_spelled hread (by decide), List.cons_append]
  have hnext : isNameChar c = false :=
    isNameChar_of_isSpace (isSpace_of_isBlank (hblank c List.mem_cons_self))
  exact firstWord_eq (by decide) hread hname hnext

end SourceLine

/-! ### Words and kinds -/

namespace LineKind

variable {l : SourceLine} {kind other : LineKind}

/-- The kinds whose lines start with a keyword, in the order in which they are tried. -/
def keywordKinds : List LineKind :=
  [declaration, dimension, input, output, branch, otherwise, endBranch, whileLoop, endWhile,
   countedLoop, endCounted, repeatLoop, untilLoop]

/-- Assignments and calls are tried behind all other kinds. -/
theorem order_eq : order = keywordKinds ++ [assignment, call] := rfl

/-- The first words of the lines of a kind; none for a kind that is not recognised by one. -/
def words : LineKind → List (List Char)
  | declaration => ["definir".toList]
  | dimension => ["dimension".toList]
  | input => ["leer".toList]
  | output => ["escribir".toList, "imprimir".toList, "mostrar".toList]
  | branch => ["si".toList]
  | otherwise => ["sino".toList]
  | endBranch => ["finsi".toList]
  | whileLoop => ["mientras".toList]
  | endWhile => ["finmientras".toList]
  | countedLoop => ["para".toList]
  | endCounted => ["finpara".toList]
  | repeatLoop => ["repetir".toList]
  | untilLoop => ["hasta".toList]
  | assignment | call => []

open SourceLine in
/-- **A line is recognised by its first word.** -/
theorem firstWord_mem_words (hkind : kind ∈ keywordKinds) (h : kind.fits l = true) :
    l.firstWord ∈ kind.words := by
  cases kind with
  | declaration | dimension | input | branch | whileLoop | countedLoop =>
    exact List.mem_singleton.2 (firstWord_of_hasKeyword (by decide) (by decide) h)
  | output =>
    simp only [fits, Bool.or_eq_true] at h
    obtain (h | h) | h := h
    all_goals
      have hword := firstWord_of_hasKeyword (by decide) (by decide) h
      simp [words, hword]
  | otherwise | repeatLoop =>
    have h := hasKeyword_of_lower_eq (beq_iff_eq.1 h)
    exact List.mem_singleton.2 (firstWord_of_hasKeyword (by decide) (by decide) h)
  | endBranch | endWhile | endCounted =>
    exact List.mem_singleton.2 (firstWord_of_isCloser (by decide) h)
  | untilLoop => exact List.mem_singleton.2 (firstWord_of_afterUntil? h)
  | assignment | call => exact absurd hkind (by decide)

theorem eq_of_mem_words {word : List Char} (h : word ∈ kind.words) (hother : word ∈ other.words) :
    kind = other := by
  have hcommon : kind.words.any other.words.contains = true :=
    List.any_eq_true.2 ⟨word, h, List.contains_iff_mem.2 hother⟩
  have hdisjoint : kind.words.any other.words.contains = true → kind = other := by
    cases kind <;> cases other <;> decide
  exact hdisjoint hcommon

theorem eq_of_fits (hkind : kind ∈ keywordKinds) (hother : other ∈ keywordKinds)
    (h : kind.fits l = true) (h' : other.fits l = true) : kind = other :=
  eq_of_mem_words (firstWord_mem_words hkind h) (firstWord_mem_words hother h')

/-- The first kind in any order of the keywords is the one of `order`. -/
theorem find?_fits_of_perm {kinds : List LineKind} (h : kinds.Perm keywordKinds) :
    (kinds ++ [assignment, call]).find? (fits l) = l.kind? := by
  have hfind : kinds.find? (fits l) = keywordKinds.find? (fits l) := by
    refine List.find?_eq_find?_of_perm h ?_
    rintro kind ⟨hkind, hfits⟩ other ⟨hother, hfits'⟩
    exact eq_of_fits (h.mem_iff.1 hkind) (h.mem_iff.1 hother) hfits hfits'
  rw [SourceLine.kind?, order_eq, List.find?_append, List.find?_append, hfind]

end LineKind

namespace LineContext

/-- Converts a line as `convertLine` does, with the kinds tried in the given order. -/
def convertBy (kinds : List LineKind) (cx : LineContext) (l : SourceLine) (depth : Nat) :
    LineResult × LineContext :=
  let cx := if Scan.unclosed l.code then cx.warn (l.notice .openLiteral) else cx
  match kinds.find? (LineKind.fits l) with
  | some kind => cx.convertKind l depth kind
  | none => (.line depth ("// ".toList ++ l.text) depth, cx.warn (l.notice .unrecognised))

theorem convertLine_eq_convertBy (cx : LineContext) (l : SourceLine) (depth : Nat) :
    cx.convertLine l depth = cx.convertBy LineKind.order l depth := rfl

/-- **The order of the keywords does not matter.**  A line has the form of at most one of the kinds
that start with a keyword, and it is converted alike whatever the order of these kinds, as long as
assignments and calls are tried behind them. -/
theorem convertLine_of_any_order (l : SourceLine) :
    (∀ kind ∈ LineKind.keywordKinds, ∀ other ∈ LineKind.keywordKinds,
      kind.fits l = true → other.fits l = true → kind = other) ∧
    ∀ kinds : List LineKind, kinds.Perm LineKind.keywordKinds →
      ∀ (cx : LineContext) (depth : Nat),
        cx.convertBy (kinds ++ [.assignment, .call]) l depth = cx.convertLine l depth := by
  refine ⟨fun kind hkind other hother => LineKind.eq_of_fits hkind hother, ?_⟩
  intro kinds hkinds cx depth
  rw [convertLine_eq_convertBy, convertBy, LineKind.find?_fits_of_perm hkinds]
  rfl

/-- A line that ends a loop, with a long s in its keyword, does so in the reversed order too. -/
theorem convertLine_of_reversed_order :
    let cx : LineContext := ⟨.empty, .empty, ⟨true⟩⟩
    ∃ l ∈ sourceLines 1 "HAſTA Que x".toList, LineKind.fits l .untilLoop = true ∧
      (∀ other ∈ LineKind.keywordKinds, other.fits l = true → .untilLoop = other) ∧
      cx.convertBy (LineKind.keywordKinds.reverse ++ [.assignment, .call]) l 1 =
        cx.convertLine l 1 := by
  intro cx
  have hkind : LineKind.untilLoop ∈ LineKind.keywordKinds := by decide
  have hline : ∃ l ∈ sourceLines 1 "HAſTA Que x".toList, LineKind.fits l .untilLoop = true := by
    decide
  obtain ⟨l, hl, hfits⟩ := hline
  obtain ⟨honly, hany⟩ := convertLine_of_any_order l
  refine ⟨l, hl, hfits, fun other hother h => honly _ hkind other hother hfits h, ?_⟩
  exact hany _ (List.reverse_perm _) cx 1

end LineContext

end Pseudocode
