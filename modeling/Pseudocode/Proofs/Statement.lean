import Mathlib.Data.Option.Basic
import Pseudocode.Statement.Declaration
import Pseudocode.Statement.Dimension
import Pseudocode.Statement.Input
import Pseudocode.Statement.Simple
import Pseudocode.Proofs.Expr.Alphabet

/-!
# The parts of statements

What is read off a statement is made of the characters of its line, names and indices as they are
written and sizes after their conversion.

* `subset_of_mem_declaredNames`, `subset_of_mem_dimensionItems`, `subset_of_mem_inputTargets` : the
  items that a statement lists.
* `Element.subset_of_ofText?`, `ArrayShape.subset_of_ofText?` : elements of arrays, and arrays.
* `outputArguments_subset`, `subset_of_assignmentSides?` : arguments and sides.
-/

namespace Pseudocode

theorem Names.subset_of_declareAll (names : Names) (ns : List (List Char)) :
    (names.declareAll ns).1 ⊆ ns := by
  induction ns generalizing names with
  | nil => exact List.nil_subset _
  | cons n ns ih =>
    simp only [declareAll]
    split
    · exact List.cons_subset_cons n (ih _)
    · exact List.subset_cons_of_subset n (ih _)

namespace Statement

/-! ### Declarations -/

theorem beforeType_subset (s : List Char) : beforeType s ⊆ s := by
  induction s with
  | nil => exact List.nil_subset _
  | cons c cs ih =>
    rw [beforeType]
    split
    · exact List.nil_subset _
    · exact List.cons_subset_cons c ih

theorem subset_of_mem_declaredNames {line name : List Char} (h : name ∈ declaredNames line) :
    name ⊆ line :=
  List.Subset.trans (Scan.subset_of_mem_splitTopLevel (List.mem_filter.1 h).1)
    (List.Subset.trans (Text.stripKey_subset _ _) (beforeType_subset line))

/-! ### Elements of arrays -/

theorem subset_of_between? {first last : Char} {s inside : List Char}
    (h : between? first last s = some inside) : inside ⊆ s := by
  cases s with
  | nil => cases h
  | cons c cs =>
    rw [between?] at h
    split at h
    · cases h
      exact List.subset_cons_of_subset c (List.dropLast_subset cs)
    · cases h

theorem Element.subset_of_ofText? {s : List Char} {e : Element} (h : Element.ofText? s = some e) :
    e.array ⊆ s ∧ e.index ⊆ s := by
  simp only [Element.ofText?] at h
  split at h
  · cases h
  · split at h
    · rename_i c index hinside
      cases h
      refine ⟨Text.identifier_subset s, List.Subset.trans (subset_of_between? hinside) ?_⟩
      exact List.Subset.trans (Text.skipBlanks_suffix _).subset (Text.splitIdentifier_snd_subset s)
    · cases h

theorem ArrayShape.subset_of_ofText? {item : List Char} {a : ArrayShape}
    (h : ArrayShape.ofText? item = some a) :
    a.name ⊆ item ∧ ∀ size ∈ a.sizes, size ⊆ item ++ Expr.alphabet := by
  unfold ArrayShape.ofText? at h
  split at h
  · rename_i element helement
    obtain ⟨harray, hindex⟩ := Element.subset_of_ofText? helement
    simp only at h
    split at h
    · cases h
    · cases h
      refine ⟨harray, fun size hsize => ?_⟩
      obtain ⟨piece, hpiece, rfl⟩ := List.mem_map.1 hsize
      have hitem := List.Subset.trans (Scan.subset_of_mem_splitTopLevel hpiece) hindex
      exact List.Subset.trans (Expr.expression_subset piece) (by grind)
  · cases h

theorem subset_of_mem_dimensionItems {line item : List Char} (h : item ∈ dimensionItems line) :
    item ⊆ line :=
  List.Subset.trans (Scan.subset_of_mem_splitTopLevel h) (Text.stripKey_subset _ line)

theorem subset_of_mem_inputTargets {line target : List Char} (h : target ∈ inputTargets line) :
    target ⊆ line :=
  List.Subset.trans (Scan.subset_of_mem_splitTopLevel (List.mem_filter.1 h).1)
    (Text.stripKey_subset _ line)

/-! ### Output and assignments -/

theorem suffix_of_afterSameLine? {s rest : List Char} (h : afterSameLine? s = some rest) :
    rest <:+ s := by
  simp only [afterSameLine?, Option.bind_eq_bind, Option.bind_eq_some_iff, Prod.exists] at h
  obtain ⟨s₁, h₁, _, s₂, h₂, s₃, h₃, _, s₄, h₄, h⟩ := h
  cases h
  have hword : rest <:+ s₃ := by
    obtain hs | ⟨-, hs⟩ := (Option.orElse_eq_some _ _ _).1 h₄
    · exact Text.suffix_of_splitWholeKey? hs
    · exact Text.suffix_of_splitWholeKey? hs
  exact hword.trans ((Text.suffix_of_skipSomeBlanks? h₃).trans
    ((Text.suffix_of_splitKey? h₂).trans (Text.suffix_of_skipSomeBlanks? h₁)))

theorem outputArguments_subset (line : List Char) : outputArguments line ⊆ line := by
  unfold outputArguments
  split
  · rename_i rest hrest
    have hafter : (afterSameLine? rest).getD rest ⊆ rest :=
      Text.getD_subset fun _ h => (suffix_of_afterSameLine? h).subset
    exact List.Subset.trans (Text.trim_subset _)
      (List.Subset.trans hafter (Text.suffix_of_splitAnyKey? hrest).subset)
  · exact Text.trim_subset line

theorem subset_of_assignmentSides? {line left right : List Char}
    (h : assignmentSides? line = some (left, right)) : left ⊆ line ∧ right ⊆ line := by
  simp only [assignmentSides?, Option.map_eq_some_iff, Prod.exists, Prod.mk.injEq] at h
  obtain ⟨front, rest, hbreak, rfl, rfl⟩ := h
  have hline := Scan.eq_append_of_breakCode? hbreak
  have hdrop := (List.drop_suffix arrow.length rest).subset
  have hleft := Text.trim_subset front
  have hright := Text.trim_subset (rest.drop arrow.length)
  rw [hline]
  exact ⟨List.subset_append_of_subset_left _ hleft,
    List.subset_append_of_subset_right _ (List.Subset.trans hright hdrop)⟩

end Statement

end Pseudocode
