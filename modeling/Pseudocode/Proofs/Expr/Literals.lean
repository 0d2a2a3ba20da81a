import Pseudocode.Proofs.Expr.Alphabet

/-!
# Literals in expressions

No rule writes a quote.  The rules for operators and intrinsics read code only, so literals pass
through them; the boolean constants and `azar` are looked for in literals too, and a literal that
holds none of them passes through these rules as well.

* `Rule.literals_apply` : a rule keeps the literals of a text whose literals are inert.
* `literals_expression_and_condition` : **the conversions keep the literals.**
-/

namespace Pseudocode

namespace Expr

open Scan

/-- The text holds nothing that is replaced in literals: no boolean constant that is a whole word,
and no call of `azar`. -/
def Inert (text : List Char) : Prop :=
  ¬ HoldsWord "verdadero".toList text ∧ ¬ HoldsWord "falso".toList text ∧ ¬ HoldsAzar text

instance (text : List Char) : Decidable (Inert text) :=
  inferInstanceAs (Decidable (¬ _ ∧ ¬ _ ∧ ¬ _))

/-! ### Rules -/

theorem literals_mapCode_replaceAll {p : Pattern} (hp : p.AddsOnly alphabet) (s : List Char) :
    literals (mapCode (replaceAll p) s) = literals s :=
  literals_mapCode
    (fun run hrun => (hrun.append alphabet_quoteFree).mono (replaceAll_subset hp run)) rfl s

theorem literals_replaceAll_wordPattern {word replacement s : List Char} (hword : QuoteFree word)
    (hne : word ≠ []) (hreplacement : replacement ⊆ alphabet)
    (h : ∀ text ∈ literals s, ¬ HoldsWord word text) :
    literals (replaceAll (wordPattern word replacement) s) = literals s := by
  have hself : ∀ text ∈ literals s, replaceAll (wordPattern word replacement) text = text :=
    fun text htext => replaceAll_wordPattern_eq_self (h text htext)
  rw [replaceAll_eq_mapCode (wordPattern_stopsAtQuotes hword hne) hself]
  exact literals_mapCode_replaceAll (Pattern.wordPattern_addsOnly hreplacement) s

theorem literals_booleans {s : List Char} (h : ∀ text ∈ literals s, Inert text) :
    literals (booleans s) = literals s := by
  have htrue : literals (replaceAll (wordPattern "verdadero".toList "true".toList) s) =
      literals s :=
    literals_replaceAll_wordPattern (by decide) (by decide) (by decide) fun text htext =>
      (h text htext).1
  unfold booleans
  rw [← htrue] at h
  rw [literals_replaceAll_wordPattern (by decide) (by decide) (by decide)
    fun text htext => (h text htext).2.1, htrue]

theorem Rule.literals_apply (r : Rule) {s : List Char} (h : ∀ text ∈ literals s, Inert text) :
    literals (r.apply s) = literals s := by
  obtain rfl | rfl | ⟨p, hp, hr⟩ := r.cases_apply
  · exact literals_booleans h
  · exact (literals_random fun text htext => (h text htext).2.2).1
  · rw [hr]
    exact literals_mapCode_replaceAll hp s

/-- The literals stay inert, as they stay the same, so the rules can follow each other. -/
theorem literals_applyRules (rules : List Rule) {s : List Char}
    (h : ∀ text ∈ literals s, Inert text) : literals (applyRules rules s) = literals s := by
  induction rules generalizing s with
  | nil => rfl
  | cons r rules ih =>
    have hr := r.literals_apply h
    exact (ih (by rwa [hr])).trans hr

/-- **The conversions keep the literals** of a text in which no literal holds a boolean constant or
a call of `azar`. -/
theorem literals_expression_and_condition (s : List Char)
    (h : ∀ text ∈ literals s, Inert text) :
    literals (expression s) = literals s ∧ literals (condition s) = literals s :=
  ⟨literals_applyRules expressionRules h, literals_applyRules conditionRules h⟩

/-- Operators, quotes and parentheses in literals, a literal in the argument of a call, and a last
literal that is not closed. -/
theorem literals_of_quoted_operators :
    let s := "NO x = 'Y \"falsos\" = 2^2' Y rc( azar( \"azar )\" + 3 MOD 2 ) ) <> \"no O".toList
    literals s =
        ["'Y \"falsos\" = 2^2'".toList, "\"azar )\"".toList, "\"no O".toList] ∧
      literals (expression s) = literals s ∧ literals (condition s) = literals s :=
  ⟨by decide, literals_expression_and_condition _ (by decide)⟩

end Expr

end Pseudocode
