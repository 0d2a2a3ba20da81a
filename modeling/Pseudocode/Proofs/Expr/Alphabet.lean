import Pseudocode.Expr.Convert
import Pseudocode.Proofs.Expr.Random

/-!
# The characters of a conversion

A rule writes operators, constants and members of `Math`, and copies the rest from the text it is
applied to.

* `alphabet` : the characters that the rules write of their own.
* `Rule.apply_subset` : **a rule adds no other characters.**
* `expression_subset`, `condition_subset` : the same of the two conversions.
-/

namespace Pseudocode

/-! ### Patterns -/

namespace Pattern

theorem textPattern_addsOnly {text replacement added : List Char} (h : replacement ⊆ added) :
    AddsOnly (textPattern text replacement) added := by
  intro before s n t ht
  unfold textPattern at ht
  split at ht
  · cases ht
    exact List.subset_append_of_subset_right _ h
  · cases ht

theorem wordPattern_addsOnly {word replacement added : List Char} (h : replacement ⊆ added) :
    AddsOnly (wordPattern word replacement) added := by
  intro before s n t ht
  obtain ⟨-, -, -, -, -, -, rfl⟩ := wordPattern_eq_some_iff.1 ht
  exact List.subset_append_of_subset_right _ h

theorem letterPattern_addsOnly {letter : Char} {replacement added : List Char}
    (h : replacement ⊆ added) : AddsOnly (letterPattern letter replacement) added := by
  intro before s n t ht
  unfold letterPattern at ht
  split at ht
  · cases ht
  · split at ht
    · cases ht
      exact List.subset_append_of_subset_right _ h
    · cases ht

end Pattern

namespace Scan

theorem mapCode_subset {α : Type} [Symbol α] {f : List α → List α} {added : List α}
    (hf : ∀ run, f run ⊆ run ++ added) (s : List α) : mapCode f s ⊆ s ++ added := by
  have hnil : f [] ⊆ s ++ added := List.subset_append_of_subset_right _ (hf [])
  have hfront : (if startsInCode s then [] else f []) ⊆ s ++ added := by
    split
    · exact List.nil_subset _
    · exact hnil
  rw [mapCode_eq]
  refine List.append_subset.2 ⟨hfront, fun c hc => ?_⟩
  obtain ⟨segment, hsegment, hc⟩ := List.mem_flatMap.1 hc
  have hsymbols : segment.symbols ⊆ s := fun d hd => by
    rw [← flatMap_symbols_segments s]
    exact List.mem_flatMap.2 ⟨segment, hsegment, hd⟩
  cases segment with
  | code run =>
    obtain hrun | hadded := List.mem_append.1 (hf run hc)
    · exact List.mem_append_left _ (hsymbols hrun)
    · exact List.mem_append_right _ hadded
  | literal text => exact List.mem_append_left _ (hsymbols hc)

end Scan

namespace Expr

/-- The characters that the rules write of their own. -/
def alphabet : List Char :=
  "&|!=%*".toList ++ "true".toList ++ "false".toList ++ "Math.floor(Math.random() * ())".toList ++
    intrinsics.flatMap Prod.snd

theorem memberFor_cases (spelled : List Char) :
    memberFor spelled = [] ∨ ∃ name, (name, memberFor spelled) ∈ intrinsics := by
  unfold memberFor
  cases h : intrinsics.lookup (Text.lower spelled) with
  | none => exact .inl rfl
  | some member =>
    obtain ⟨before, behind, htable, -⟩ := List.lookup_eq_some_iff.1 h
    exact .inr ⟨Text.lower spelled, by simp [htable]⟩

theorem memberFor_subset (spelled : List Char) : memberFor spelled ⊆ alphabet := by
  obtain hnil | ⟨name, hmem⟩ := memberFor_cases spelled
  · rw [hnil]
    exact List.nil_subset _
  · exact List.subset_append_of_subset_right _ fun c hc => List.mem_flatMap.2 ⟨_, hmem, hc⟩

theorem alphabet_quoteFree : Scan.QuoteFree alphabet := by decide +kernel

theorem negation_addsOnly : negation.AddsOnly alphabet := by
  intro before s n t ht
  unfold negation at ht
  split at ht
  · split at ht
    · cases ht
      exact List.subset_append_of_subset_right _ (by decide)
    · cases ht
  · cases ht

theorem equalitySign_subset {lead rest t : List Char} {n : Nat}
    (h : equalitySign lead rest = some (n, t)) : t ⊆ lead ++ rest ++ "=".toList := by
  cases rest with
  | nil =>
    cases h
    simp
  | cons c rest =>
    rw [equalitySign] at h
    split at h
    · cases h
    · cases h
      simp

theorem equality_addsOnly : equality.AddsOnly alphabet := by
  intro before s n t ht
  unfold equality at ht
  split at ht
  · exact List.Subset.trans (equalitySign_subset ht) (by grind)
  · split at ht
    · cases ht
    · exact List.Subset.trans (equalitySign_subset ht) (by grind)
  · cases ht

theorem intrinsicCall_addsOnly : intrinsicCall.AddsOnly alphabet := by
  have hcall : ∀ name, memberFor name ++ "(".toList ⊆ alphabet := fun name =>
    List.append_subset.2 ⟨memberFor_subset name, by decide⟩
  intro before s n t ht
  unfold intrinsicCall at ht
  split at ht
  · cases ht
    exact List.subset_append_of_subset_right _ (hcall _)
  · split at ht
    · cases ht
    · split at ht
      · cases ht
      · obtain ⟨⟨name, m⟩, -, h⟩ := Option.map_eq_some_iff.1 ht
        cases h
        exact List.cons_subset.2 ⟨by simp, List.subset_append_of_subset_right _ (hcall name)⟩

theorem booleans_subset (s : List Char) : booleans s ⊆ s ++ alphabet := by
  have hword : ∀ {word replacement : List Char}, replacement ⊆ alphabet → ∀ s,
      replaceAll (wordPattern word replacement) s ⊆ s ++ alphabet := fun h s =>
    replaceAll_subset (Pattern.wordPattern_addsOnly h) s
  unfold booleans
  refine List.Subset.trans (hword (by decide) _) ?_
  exact List.append_subset.2 ⟨hword (by decide) s, List.subset_append_right _ _⟩

theorem random_subset (s : List Char) : random s ⊆ s ++ alphabet := by
  fun_induction random s with
  | case1 s => exact List.subset_append_left _ _
  | case2 s front argument hs hclose => exact List.subset_append_left _ _
  | case3 s front argument hs inside rest hclose _ _ _ ihInside ihRest =>
    obtain ⟨read, blanks, rfl, -, -, -⟩ := eq_append_of_breakAzar? hs
    obtain ⟨c, -, -, rfl⟩ := Scan.eq_append_of_closeParen? hclose
    have htrim := Text.trim_subset inside
    simp only [List.append_subset]
    refine ⟨⟨⟨⟨by simp, ?_⟩, List.Subset.trans ihInside (by grind)⟩, ?_⟩,
      List.Subset.trans ihRest (by grind)⟩
    · exact List.subset_append_of_subset_right _ (by decide)
    · exact List.subset_append_of_subset_right _ (by decide)

/-! ### Rules -/

/-- What a rule can do: all but two replace a pattern in code. -/
theorem Rule.cases_apply (r : Rule) :
    r = .booleans ∨ r = .random ∨
      ∃ p : Pattern, p.AddsOnly alphabet ∧ r.apply = Scan.mapCode (replaceAll p) := by
  cases r with
  | booleans => exact .inl rfl
  | random => exact .inr (.inl rfl)
  | conjunction => exact .inr (.inr ⟨_, Pattern.letterPattern_addsOnly (by decide), rfl⟩)
  | disjunction => exact .inr (.inr ⟨_, Pattern.letterPattern_addsOnly (by decide), rfl⟩)
  | negation => exact .inr (.inr ⟨_, negation_addsOnly, rfl⟩)
  | inequality => exact .inr (.inr ⟨_, Pattern.textPattern_addsOnly (by decide), rfl⟩)
  | equality => exact .inr (.inr ⟨_, equality_addsOnly, rfl⟩)
  | remainder => exact .inr (.inr ⟨_, Pattern.wordPattern_addsOnly (by decide), rfl⟩)
  | power => exact .inr (.inr ⟨_, Pattern.textPattern_addsOnly (by decide), rfl⟩)
  | intrinsics => exact .inr (.inr ⟨_, intrinsicCall_addsOnly, rfl⟩)

/-- **A rule adds no characters but those of the alphabet.** -/
theorem Rule.apply_subset (r : Rule) (s : List Char) : r.apply s ⊆ s ++ alphabet := by
  obtain rfl | rfl | ⟨p, hp, hr⟩ := r.cases_apply
  · exact booleans_subset s
  · exact random_subset s
  · rw [hr]
    exact Scan.mapCode_subset (replaceAll_subset hp) s

theorem applyRules_subset (rules : List Rule) (s : List Char) :
    applyRules rules s ⊆ s ++ alphabet := by
  induction rules generalizing s with
  | nil => exact List.subset_append_left _ _
  | cons r rules ih =>
    have hr := r.apply_subset s
    exact List.Subset.trans (ih (r.apply s)) (by grind)

theorem expression_subset (s : List Char) : expression s ⊆ s ++ alphabet :=
  applyRules_subset _ s

theorem condition_subset (s : List Char) : condition s ⊆ s ++ alphabet :=
  applyRules_subset _ s

end Expr

end Pseudocode
