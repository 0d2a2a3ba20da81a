import Pseudocode.Proofs.Declared.Calls
import Pseudocode.Proofs.Text

/-!
# What a dimension declares

A dimension is converted item by item, and each array is declared before the next item is read.  An
item that is no array turns the whole line into a comment, which allocates nothing, but the arrays
in front of it stay declared.  So a later statement finds them declared and writes no `let`.

* `Statement.ArrayShape.name_isIdentifier` : the name of an array is an identifier, so no allocation
  looks like a comment.
* `Statement.let_mem_withLets` : each name that is new has its `let`.
* `Statement.dimension_declares` : **what a dimension declares and allocates,** and when a line that
  is kept as a comment leaves the names as they were.
-/

namespace Pseudocode

theorem Names.declareAll_eq_self_iff {names : Names} {ns : List (List Char)} :
    (names.declareAll ns).2 = names ↔ ∀ name ∈ ns, name ∈ names.toList := by
  refine ⟨fun h name hname => ?_, fun h => ?_⟩
  · have hmem : name ∈ (names.declareAll ns).2.toList := mem_declareAll_iff.2 (.inr hname)
    rwa [h] at hmem
  · induction ns with
    | nil => rfl
    | cons name ns ih =>
      obtain ⟨hname, hns⟩ := List.forall_mem_cons.1 h
      rw [declareAll_cons_of_mem hname, ih hns]

namespace Statement

open Text

/-! ### Statements with `let` -/

section WithLets

variable {fresh : List (List Char)} {ws : List Write}

theorem mem_plainTargets_cons {w : Write} {name : List Char} :
    name ∈ plainTargets (w :: ws) ↔
      (w.isPlain = true ∧ w.target = name) ∨ name ∈ plainTargets ws := by
  cases hplain : w.isPlain <;> simp [plainTargets, hplain, eq_comm (a := name)]

theorem length_withLets : (withLets fresh ws).length = ws.length := by
  induction ws generalizing fresh with
  | nil => rfl
  | cons w ws ih =>
    rw [withLets]
    split <;> rw [List.length_cons, List.length_cons, ih]

theorem let_mem_withLets {name : List Char} (hfresh : name ∈ fresh)
    (hmem : name ∈ plainTargets ws) :
    ∃ w ∈ ws, w.target = name ∧ "let ".toList ++ w.target ++ w.rest ∈ withLets fresh ws := by
  induction ws generalizing fresh with
  | nil => cases hmem
  | cons w ws ih =>
    rw [withLets]
    by_cases hname : w.isPlain = true ∧ w.target = name
    · have hlet : (w.isPlain && fresh.contains w.target) = true := by
        simpa [hname.1, hname.2] using hfresh
      rw [if_pos hlet]
      exact ⟨w, List.mem_cons_self, hname.2, List.mem_cons_self⟩
    · have hlater := (mem_plainTargets_cons.1 hmem).resolve_left hname
      split
      · -- `let` is used up for another name
        rename_i hlet
        have hother : name ≠ w.target := fun h => hname ⟨(Bool.and_eq_true_iff.1 hlet).1, h.symm⟩
        obtain ⟨u, hu, htarget, hmem⟩ := ih ((List.mem_erase_of_ne hother).2 hfresh) hlater
        exact ⟨u, List.mem_cons_of_mem w hu, htarget, List.mem_cons_of_mem _ hmem⟩
      · obtain ⟨u, hu, htarget, hmem⟩ := ih hfresh hlater
        exact ⟨u, List.mem_cons_of_mem w hu, htarget, List.mem_cons_of_mem _ hmem⟩

/-- The first character of statements is that of `let` or of the first target. -/
theorem head?_join_withLets {sep : List Char} {w : Write} (hne : w.target ≠ []) :
    (join sep (withLets fresh (w :: ws))).head? = some 'l' ∨
      (join sep (withLets fresh (w :: ws))).head? = w.target.head? := by
  have hhead : ∀ s ss, s ≠ [] → (join sep (s :: ss)).head? = s.head? := by
    intro s ss hs
    cases ss with
    | nil => rfl
    | cons t ss =>
      change (s ++ sep ++ join sep (t :: ss)).head? = s.head?
      rw [List.append_assoc, List.head?_append_of_ne_nil _ hs]
  rw [withLets]
  split
  · left
    rw [hhead _ _ (by simp)]
    rfl
  · right
    rw [hhead _ _ (by simp [hne]), List.head?_append_of_ne_nil _ hne]

end WithLets

/-! ### Arrays -/

theorem ArrayShape.name_isIdentifier {item : List Char} {a : ArrayShape}
    (h : ArrayShape.ofText? item = some a) : IsIdentifier a.name := by
  unfold ArrayShape.ofText? at h
  split at h
  · rename_i element helement
    have hname : element.array = identifier item ∧ identifier item ≠ [] := by
      simp only [Element.ofText?] at helement
      split at helement
      · cases helement
      · rename_i hne
        split at helement
        · cases helement
          exact ⟨rfl, fun hnil => hne (List.isEmpty_iff.2 hnil)⟩
        · cases helement
    simp only at h
    split at h
    · cases h
    · cases h
      rw [hname.1]
      exact identifier_isIdentifier hname.2
  · cases h

section Arrays

variable {items : List (List Char)}

theorem allArrays_eq_false_iff :
    allArrays items = false ↔ ∃ item ∈ items, ArrayShape.ofText? item = none := by
  simp [allArrays]

theorem exists_of_mem_leadingArrays {a : ArrayShape} (h : a ∈ leadingArrays items) :
    ∃ item ∈ items, ArrayShape.ofText? item = some a := by
  induction items with
  | nil => cases h
  | cons item items ih =>
    rw [leadingArrays] at h
    split at h
    · rename_i b hb
      obtain rfl | hlater := List.mem_cons.1 h
      · exact ⟨item, List.mem_cons_self, hb⟩
      · obtain ⟨item', hitem', ha⟩ := ih hlater
        exact ⟨item', List.mem_cons_of_mem item hitem', ha⟩
    · cases h

theorem length_leadingArrays (h : allArrays items = true) :
    (leadingArrays items).length = items.length := by
  induction items with
  | nil => rfl
  | cons item items ih =>
    obtain ⟨hitem, hitems⟩ := Bool.and_eq_true_iff.1 h
    obtain ⟨a, ha⟩ := Option.isSome_iff_exists.1 hitem
    rw [leadingArrays, ha, List.length_cons, List.length_cons, ih hitems]

theorem exists_allocation {names : Names} {arrays : List ArrayShape} {name : List Char}
    (h : name ∈ (names.declareAll (arrays.map (·.name))).1) :
    ∃ a ∈ arrays, a.name = name ∧
      "let ".toList ++ name ++ (" = ".toList ++ allocation a.sizes ++ ";".toList) ∈
        withLets (names.declareAll (arrays.map (·.name))).1 (arrays.map (·.write)) := by
  have htarget : name ∈ plainTargets (arrays.map (·.write)) := by
    rw [plainTargets_arrays]
    exact (Names.mem_declareAll_fst_iff.1 h).1
  obtain ⟨w, hw, rfl, hlet⟩ := let_mem_withLets h htarget
  obtain ⟨a, ha, rfl⟩ := List.mem_map.1 hw
  exact ⟨a, ha, rfl, hlet⟩

theorem join_withLets_ne_comment {fresh : List (List Char)} (line : List Char) :
    join " ".toList (withLets fresh ((leadingArrays items).map (·.write))) ≠
      "// ".toList ++ line := by
  intro h
  cases harrays : leadingArrays items with
  | nil => simp [harrays, withLets, join] at h
  | cons a arrays =>
    obtain ⟨item, -, hitem⟩ := exists_of_mem_leadingArrays (harrays ▸ List.mem_cons_self)
    obtain ⟨c, cs, hname, hc, -⟩ := ArrayShape.name_isIdentifier hitem
    have hhead : ("// ".toList ++ line).head? = some 'l' ∨
        ("// ".toList ++ line).head? = a.name.head? := by
      rw [← h, harrays, List.map_cons]
      exact head?_join_withLets (by simp [ArrayShape.write, hname])
    obtain hlet | hslash := hhead
    · exact absurd hlet (by simp)
    · obtain rfl : c = '/' := by simpa [hname, eq_comm] using hslash
      exact absurd hc (by decide)

end Arrays

/-! ### Dimensions -/

theorem dimension_fst (line : List Char) (names : Names) :
    (dimension line names).1 =
      if allArrays (dimensionItems line) then
        join " ".toList (withLets
          (names.declareAll ((leadingArrays (dimensionItems line)).map (·.name))).1
          ((leadingArrays (dimensionItems line)).map (·.write)))
      else "// ".toList ++ line := by
  have hrun := Call.run_fst (.dimension line) names
  simp only [Call.run, Call.textWith, Call.lets, Call.declared] at hrun
  rw [hrun]
  split <;> rfl

theorem dimension_snd (line : List Char) (names : Names) :
    (dimension line names).2 =
      (names.declareAll ((leadingArrays (dimensionItems line)).map (·.name))).2 :=
  Call.run_snd (.dimension line) names

theorem dimension_eq_comment_iff (line : List Char) (names : Names) :
    (dimension line names).1 = "// ".toList ++ line ↔
      ∃ item ∈ dimensionItems line, ArrayShape.ofText? item = none := by
  rw [dimension_fst, ← allArrays_eq_false_iff]
  split
  · rename_i hall
    exact iff_of_false (join_withLets_ne_comment line) (by simp [hall])
  · rename_i hall
    exact iff_of_true rfl (Bool.eq_false_iff.2 hall)

/-- **What a dimension declares.**  It declares the arrays in front of the first item that is no
array.  If there is such an item, the line is kept as a comment, and the names are as they were
exactly if these arrays had all been declared before.  If there is none, every name that is added is
allocated, with its `let`, by one of the statements, of which there is one for each item. -/
theorem dimension_declares (line : List Char) (names : Names) :
    let items := dimensionItems line
    let comment := "// ".toList ++ line
    let text := (dimension line names).1
    let after := (dimension line names).2
    (text = comment ↔ ∃ item ∈ items, ArrayShape.ofText? item = none) ∧
    (∀ name, name ∈ after.toList ↔
      name ∈ names.toList ∨ ∃ a ∈ leadingArrays items, a.name = name) ∧
    (after = names ↔ ∀ a ∈ leadingArrays items, a.name ∈ names.toList) ∧
    (text ≠ comment → ∃ statements, statements.length = items.length ∧
      text = join " ".toList statements ∧
      ∀ name ∈ after.toList, name ∉ names.toList → ∃ a ∈ leadingArrays items, a.name = name ∧
        "let ".toList ++ name ++ (" = ".toList ++ allocation a.sizes ++ ";".toList) ∈
          statements) := by
  intro items comment text after
  have hafter : after = (names.declareAll ((leadingArrays items).map (·.name))).2 :=
    dimension_snd line names
  refine ⟨dimension_eq_comment_iff line names, fun name => ?_, ?_, fun htext => ?_⟩
  · rw [hafter, Names.mem_declareAll_iff, List.mem_map]
  · rw [hafter, Names.declareAll_eq_self_iff, List.forall_mem_map]
  · have hall : allArrays items = true := by
      rw [← Bool.not_eq_false, allArrays_eq_false_iff]
      exact mt (dimension_eq_comment_iff line names).2 htext
    refine ⟨_, ?_, (dimension_fst line names).trans (if_pos hall), fun name hname hnew => ?_⟩
    · rw [length_withLets, List.length_map, length_leadingArrays hall]
    · rw [hafter, Names.toList_declareAll, List.mem_append] at hname
      exact exists_allocation (hname.resolve_left hnew)

/-- An array stays declared in a line that is kept as a comment, so a later assignment writes no
`let` for it. -/
theorem rejected_dimension_declares :
    dimension "Dimension a[3], b".toList ⟨[]⟩ =
        ("// Dimension a[3], b".toList, ⟨["a".toList]⟩) ∧
      assignment "a <- 1".toList ⟨["a".toList]⟩ = ("a = 1;".toList, ⟨["a".toList]⟩) := by
  decide +kernel

end Statement

end Pseudocode
