import Pseudocode.Proofs.Pattern
import Pseudocode.Proofs.Scan.Brackets

/-!
# Quotes and brackets under replacement

A pattern whose replacements have the quotes and brackets of what they replace keeps those of a
whole text, whether it is replaced everywhere or in code only.

* `marks_of_map_keyChar`, `marks_trim` : words and spaces hold no quotes and brackets.
* `marks_stripKey`, `marks_join` : so a keyword at the front and a separator add none.
* `marks_replaceAll` : **replacing a pattern that keeps quotes and brackets keeps those of a text.**
* `marks_mapCode` : the same in code only.
-/

namespace Pseudocode

open Scan

/-! ### Characters -/

/-- The quotes and brackets. -/
def markChars : List Char := ['"', '\'', '(', ')', '[', ']', '\x7b', '\x7d']

theorem mem_markChars_of_role_ne_plain {c : Char} (h : role c ≠ .plain) : c ∈ markChars := by
  change Role.ofCode c.toNat ≠ .plain at h
  have hchar : ∀ d : Char, c.toNat = d.toNat → d ∈ markChars → c ∈ markChars := fun d hd hmem =>
    Char.toNat_inj.1 hd ▸ hmem
  unfold Role.ofCode at h
  split at h
  · exact hchar '"' ‹_› (by decide)
  · exact hchar '\'' ‹_› (by decide)
  · exact hchar '(' ‹_› (by decide)
  · exact hchar ')' ‹_› (by decide)
  · exact hchar '[' ‹_› (by decide)
  · exact hchar ']' ‹_› (by decide)
  · exact hchar '\x7b' ‹_› (by decide)
  · exact hchar '\x7d' ‹_› (by decide)
  · exact absurd rfl h

theorem marks_eq_nil_of_forall {p : Char → Bool} (hp : markChars.all (!p ·) = true) {s : List Char}
    (h : ∀ c ∈ s, p c = true) : marks s = [] := by
  refine marks_eq_nil_iff.2 fun c hc => ?_
  by_contra hplain
  have hnot := List.all_eq_true.1 hp c (mem_markChars_of_role_ne_plain hplain)
  simp [h c hc] at hnot

theorem marks_of_isSpace {s : List Char} (h : ∀ c ∈ s, Text.isSpace c = true) : marks s = [] :=
  marks_eq_nil_of_forall (by decide) h

theorem marks_of_isBlank {s : List Char} (h : ∀ c ∈ s, Text.isBlank c = true) : marks s = [] :=
  marks_eq_nil_of_forall (by decide) h

theorem marks_of_map_keyChar {word read : List Char} (hword : marks word = [])
    (h : read.map Text.keyChar = word) : marks read = [] := by
  refine marks_eq_nil_iff.2 fun c hc => ?_
  by_contra hplain
  have hkey : Text.keyChar c = c := by
    have hall : markChars.all (fun d => Text.keyChar d == d) = true := by decide
    simpa using List.all_eq_true.1 hall c (mem_markChars_of_role_ne_plain hplain)
  have hmem : c ∈ word := by
    rw [← h, ← hkey]
    exact List.mem_map_of_mem hc
  exact hplain (marks_eq_nil_iff.1 hword c hmem)

theorem marks_trim (s : List Char) : marks (Text.trim s) = marks s := by
  obtain ⟨front, back, hfront, hback, hs⟩ := Text.exists_trim_eq s
  conv_rhs => rw [hs, marks_append, marks_append, marks_of_isSpace hfront, marks_of_isSpace hback,
    List.nil_append, List.append_nil]

theorem marks_stripKey {key : List Char} (hkey : marks key = []) (s : List Char) :
    marks (Text.stripKey key s) = marks s := by
  unfold Text.stripKey
  split
  · rename_i read rest hs
    obtain ⟨hread, rfl⟩ := Text.splitKey?_eq_some_iff.1 hs
    rw [marks_trim, marks_append, marks_of_map_keyChar hkey hread, List.nil_append]
  · exact marks_trim s

theorem marks_join {sep : List Char} (hsep : marks sep = []) (ss : List (List Char)) :
    marks (Text.join sep ss) = marks ss.flatten := by
  induction ss with
  | nil => rfl
  | cons s ss ih =>
    cases ss with
    | nil => rw [Text.join, List.flatten_singleton]
    | cons t ss =>
      rw [Text.join, marks_append, marks_append, hsep, ih, List.append_nil, ← marks_append,
        ← List.flatten_cons]
      exact List.cons_ne_nil t ss

/-! ### Patterns -/

/-- A replacement has the quotes and brackets of what it replaces. -/
def Pattern.KeepsMarks (p : Pattern) : Prop :=
  ∀ before s n replacement, p before s = some (n, replacement) →
    0 < n ∧ marks replacement = marks (s.take n)

theorem marks_replaceFrom {p : Pattern} (hp : p.KeepsMarks) (before : Option Char) (skip : Nat)
    (s : List Char) : marks (replaceFrom p before skip s) = marks (s.drop skip) := by
  induction s generalizing before skip with
  | nil => simp [replaceFrom]
  | cons c cs ih =>
    cases skip with
    | succ skip => exact ih (some c) skip
    | zero =>
      simp only [replaceFrom]
      split
      · rename_i n replacement hocc
        obtain ⟨hn, hmarks⟩ := hp _ _ _ _ hocc
        obtain ⟨n, rfl⟩ := Nat.exists_eq_succ_of_ne_zero (Nat.pos_iff_ne_zero.1 hn)
        rw [marks_append, hmarks, ih, ← marks_append]
        simp
      · rw [← List.singleton_append, marks_append, ih, ← marks_append]
        rfl

theorem marks_replaceAll {p : Pattern} (hp : p.KeepsMarks) (s : List Char) :
    marks (replaceAll p s) = marks s :=
  marks_replaceFrom hp none 0 s

theorem marks_flatMap_mapCode {f : List Char → List Char} (hf : ∀ run, marks (f run) = marks run)
    (segments : List (Segment Char)) :
    marks (segments.flatMap (Segment.mapCode f)) = marks (segments.flatMap Segment.symbols) := by
  induction segments with
  | nil => rfl
  | cons segment segments ih =>
    rw [List.flatMap_cons, List.flatMap_cons, marks_append, marks_append, ih]
    cases segment with
    | code run => rw [Segment.mapCode, Segment.symbols, hf]
    | literal text => rfl

theorem marks_mapCode {f : List Char → List Char} (hf : ∀ run, marks (f run) = marks run)
    (s : List Char) : marks (mapCode f s) = marks s := by
  have hfront : marks (if startsInCode s then [] else f []) = [] := by
    split
    · rfl
    · exact hf []
  rw [mapCode_eq, marks_append, hfront, List.nil_append, marks_flatMap_mapCode hf,
    flatMap_symbols_segments]

namespace Pattern

theorem textPattern_keepsMarks {text replacement : List Char} (hne : text ≠ [])
    (h : marks replacement = marks text) : KeepsMarks (textPattern text replacement) := by
  intro before s n t ht
  unfold textPattern at ht
  split at ht
  · rename_i hocc
    cases ht
    obtain ⟨rest, rfl⟩ := List.isPrefixOf_iff_prefix.1 hocc
    exact ⟨List.length_pos_iff.2 hne, by rw [List.take_left, h]⟩
  · cases ht

theorem wordPattern_keepsMarks {word replacement : List Char} (hne : word ≠ [])
    (hword : marks word = []) (h : marks replacement = []) :
    KeepsMarks (wordPattern word replacement) := by
  intro before s n t ht
  obtain ⟨read, back, ⟨hread, rfl⟩, -, -, rfl, rfl⟩ := wordPattern_eq_some_iff.1 ht
  refine ⟨List.length_pos_iff.2 ?_, by rw [List.take_left, h, marks_of_map_keyChar hword hread]⟩
  rintro rfl
  exact hne hread.symm

theorem letterPattern_keepsMarks {letter : Char} {replacement : List Char}
    (hletter : role letter = .plain) (h : marks replacement = []) :
    KeepsMarks (letterPattern letter replacement) := by
  intro before s n t ht
  unfold letterPattern at ht
  split at ht
  · cases ht
  · rename_i c cs
    split at ht
    · rename_i hocc
      cases ht
      simp only [Bool.and_eq_true, decide_eq_true_eq] at hocc
      obtain ⟨⟨rfl, -⟩, -⟩ := hocc
      exact ⟨Nat.one_pos, by rw [h, List.take_succ_cons, marks_cons_of_plain hletter]; rfl⟩
    · cases ht

end Pattern

end Pseudocode
