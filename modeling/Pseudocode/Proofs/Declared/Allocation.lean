import Pseudocode.Proofs.Declared.Dimension
import Pseudocode.Proofs.Expr.Brackets
import Pseudocode.Proofs.Scan.Pieces

/-!
# Brackets of allocations

The sizes of an array are what stands between the first square bracket of an item and the last
character of the item.  In a well-nested item the two need not belong together: in `v[1][2]` the
sizes are `1][2`.  A size that closes a square bracket in front of all those it opens is written
behind a parenthesis or a brace, and no text around it makes that good.

* `Element.eq_append_of_ofText?` : the parts of an element.
* `whole_allocation`, `unreadable_allocation` : the brackets of an allocation, by those of its
  sizes.
* `ArrayShape.whole_or_unreadable` : the same, by the index of a well-nested item.
* `dimension_nested_iff` : **the code of a well-nested dimension is well nested exactly if the
  indices of its items are.**
-/

namespace Pseudocode

open Scan Text

namespace Statement

/-! ### Items -/

theorem eq_append_of_between? {first last : Char} {s inside : List Char}
    (h : between? first last s = some inside) : s = first :: (inside ++ [last]) := by
  cases s with
  | nil => cases h
  | cons c cs =>
    rw [between?] at h
    split at h
    · rename_i hends
      cases h
      simp only [Bool.and_eq_true, decide_eq_true_eq] at hends
      obtain ⟨⟨rfl, hlast⟩, -⟩ := hends
      rw [List.dropLast_append_getLast? last hlast]
    · cases h

theorem Element.eq_append_of_ofText? {s : List Char} {e : Element}
    (h : Element.ofText? s = some e) :
    IsIdentifier e.array ∧ ∃ blanks, (∀ c ∈ blanks, isBlank c = true) ∧
      s = e.array ++ (blanks ++ '[' :: (e.index ++ [']'])) := by
  simp only [Element.ofText?] at h
  split at h
  · cases h
  · rename_i hne
    split at h
    · rename_i c index hinside
      cases h
      refine ⟨identifier_isIdentifier fun hnil => hne (List.isEmpty_iff.2 hnil),
        (splitIdentifier s).2.takeWhile isBlank, List.all_eq_true.1 List.all_takeWhile, ?_⟩
      rw [← eq_append_of_between? hinside, skipBlanks, List.takeWhile_append_dropWhile,
        splitIdentifier_append]
    · cases h

theorem marks_of_isIdentifier {name : List Char} (h : IsIdentifier name) : marks name = [] :=
  marks_eq_nil_of_forall (p := isIdentifierRest) (by decide) fun _ => h.isIdentifierRest_of_mem

/-- A word that closes at most the bracket that is open: either it closes none, or a well-nested
word in front of it is followed by what closes that bracket. -/
theorem nested_or_closing_of_reads {b : Bracket} {w : List Role} {left : List Bracket}
    (hw : ∀ x ∈ w, x.isBracket = true) (h : Reads [b] w left) (hleft : left = [] ∨ left = [b]) :
    Nested w ∨ ∃ v u, Nested v ∧ w = v ++ .closing b :: u := by
  obtain rfl | rfl := hleft
  · obtain ⟨v, u, hv, -, rfl⟩ := closesAll_of_reads hw h
    exact .inr ⟨v, u, hv, rfl⟩
  · have hclosed : Reads [b] (w ++ [.closing b]) [] :=
      h.append (reads_cons_iff.2 ⟨[], if_pos rfl, reads_nil []⟩)
    have hbrackets : ∀ x ∈ w ++ [.closing b], x.isBracket = true :=
      List.forall_mem_append.2 ⟨hw, List.forall_mem_singleton.2 rfl⟩
    obtain ⟨v, u, hv, -, hword⟩ := closesAll_of_reads hbrackets hclosed
    obtain rfl | ⟨u, x, rfl⟩ := List.eq_nil_or_concat u
    · exact .inl (List.append_inj_left' hword rfl ▸ hv)
    · rw [List.concat_eq_append, ← List.cons_append, ← List.append_assoc] at hword
      exact .inr ⟨v, u, hv, List.append_inj_left' hword rfl⟩

/-- The index of a well-nested element is read with a square bracket open.  Either it is well nested
and ends outside literals, or it closes that bracket itself. -/
theorem Element.whole_or_closing {item : List Char} {e : Element}
    (he : Element.ofText? item = some e) (hitem : Nested (brackets item)) :
    Whole e.index ∨ ∃ front c back, e.index = front ++ c :: back ∧ Whole front ∧
      role c = .closing .square := by
  obtain ⟨hname, blanks, hblanks, rfl⟩ := Element.eq_append_of_ofText? he
  have hmarks : marks (e.array ++ (blanks ++ '[' :: (e.index ++ [']']))) =
      marks ('[' :: (e.index ++ [']'])) := by
    rw [marks_append, marks_append, marks_of_isIdentifier hname, marks_of_isBlank hblanks,
      List.nil_append, List.nil_append]
  have hreads : Reads [.square] (bracketsFrom .code (e.index ++ [']'])) [] := by
    rw [nested_brackets_iff, brackets, bracketsFrom_congr hmarks] at hitem
    exact hitem
  rw [bracketsFrom_append] at hreads
  obtain ⟨mid, hindex, hlast⟩ := reads_append_iff.1 hreads
  have hmid : Region.code.afterAll e.index = .code ∧ mid = [.square] ∨ mid = [] := by
    cases hregion : Region.code.afterAll e.index with
    | code =>
      rw [hregion] at hlast
      exact .inl ⟨rfl, eq_cons_of_reads_closing hlast⟩
    | literal q =>
      -- the last character belongs to a literal
      rw [hregion] at hlast
      exact .inr (Option.some.inj hlast)
  obtain hnested | ⟨v, u, hv, hword⟩ :=
    nested_or_closing_of_reads isBracket_of_mem_bracketsFrom hindex
      (hmid.symm.imp_right And.right)
  · obtain rfl := (hnested.reads _).eq hindex
    obtain ⟨hcode, -⟩ | hnil := hmid
    · exact .inl ⟨hnested, hcode⟩
    · cases hnil
  · obtain ⟨front, c, back, hsplit, hc, rfl, hcode⟩ := exists_append_of_bracketsFrom hword
    exact .inr ⟨front, c, back, hsplit, ⟨hv, hcode⟩, hc⟩

/-! ### Allocations -/

theorem allocation_cons (size : List Char) {sizes : List (List Char)} (h : sizes ≠ []) :
    allocation (size :: sizes) =
      "Array.from(\x7b length: ".toList ++ size ++ " \x7d, () => ".toList ++ allocation sizes ++
        ")".toList := by
  cases sizes with
  | nil => exact absurd rfl h
  | cons next sizes => rfl

theorem whole_allocation {sizes : List (List Char)} (h : ∀ size ∈ sizes, Whole size) :
    Whole (allocation sizes) := by
  induction sizes with
  | nil => exact ⟨.nil, rfl⟩
  | cons size sizes ih =>
    obtain ⟨hsize, hsizes⟩ := List.forall_mem_cons.1 h
    have hclose : Leads [.round] ")".toList [] := ⟨rfl, rfl⟩
    cases sizes with
    | nil =>
      have hopen : Leads [] "new Array(".toList [.round] := ⟨rfl, rfl⟩
      exact ((hopen.append (hsize.leads _)).append hclose).whole
    | cons next sizes =>
      have hopen : Leads [] "Array.from(\x7b length: ".toList [.curly, .round] := ⟨rfl, rfl⟩
      have harrow : Leads [.curly, .round] " \x7d, () => ".toList [.round] := ⟨rfl, rfl⟩
      have hrest := (ih hsizes).leads [.round]
      exact ((((hopen.append (hsize.leads _)).append harrow).append hrest).append hclose).whole

/-- An allocation is lost with a size that closes a square bracket in front of all those it opens,
wherever that size stands. -/
theorem unreadable_allocation {before after : List (List Char)} {size : List Char}
    (hbefore : ∀ other ∈ before, Region.code.afterAll other = .code)
    (hsize : ∀ opened left, Reads opened (brackets size) left → opened.head? = some .square) :
    Unreadable (allocation (before ++ size :: after)) := by
  have hnot : ∀ b ≠ Bracket.square, ∀ opened left, Reads opened (brackets size) left →
      opened.head? ≠ some b := by
    intro b hb opened left hreads hhead
    exact hb (Option.some.inj (hhead.symm.trans (hsize opened left hreads)))
  induction before with
  | nil =>
    cases after with
    | nil =>
      have hopen : ∀ opened, Reads opened (brackets "new Array(".toList)
          (.round :: ([] ++ opened)) := fun _ => rfl
      exact (unreadable_append rfl hopen (hnot _ (by decide))).append_left _
    | cons next after =>
      rw [List.nil_append, allocation_cons _ (List.cons_ne_nil _ _), List.append_assoc,
        List.append_assoc]
      have hopen : ∀ opened, Reads opened (brackets "Array.from(\x7b length: ".toList)
          (.curly :: ([.round] ++ opened)) := fun _ => rfl
      exact (unreadable_append rfl hopen (hnot _ (by decide))).append_left _
  | cons other before ih =>
    obtain ⟨hother, hbefore⟩ := List.forall_mem_cons.1 hbefore
    rw [List.cons_append, allocation_cons _ (by simp)]
    refine Unreadable.append_left (Unreadable.append_right ?_ (ih hbefore)) _
    have hopen : Region.code.afterAll "Array.from(\x7b length: ".toList = .code := rfl
    rw [Region.afterAll_append, Region.afterAll_append, hopen, hother]
    rfl

/-! ### Arrays -/

theorem ArrayShape.exists_element {item : List Char} {a : ArrayShape}
    (h : ArrayShape.ofText? item = some a) :
    ∃ e, Element.ofText? item = some e ∧ a.name = e.array ∧
      a.sizes = (cutTopLevel ',' e.index).map fun piece => Expr.expression (trim piece) := by
  unfold ArrayShape.ofText? at h
  split at h
  · rename_i e he
    simp only at h
    split at h
    · cases h
    · cases h
      exact ⟨e, he, rfl, by simp only [splitTopLevel, List.map_map, Function.comp_def]⟩
  · cases h

theorem whole_size {piece : List Char} (h : Whole piece) :
    Whole (Expr.expression (trim piece)) := by
  have hpiece := h.of_marks (marks_trim piece).symm
  exact ⟨(Expr.keepsNesting_applyRules _ _).nested hpiece.nested,
    (Expr.afterAll_expression _ _).trans hpiece.code⟩

/-- **The brackets of an allocation,** where the item is well nested: they depend on the index. -/
theorem ArrayShape.whole_or_unreadable {item : List Char} {a : ArrayShape} {e : Element}
    (ha : ArrayShape.ofText? item = some a) (he : Element.ofText? item = some e)
    (hitem : Nested (brackets item)) :
    Whole (allocation a.sizes) ∧ Nested (brackets e.index) ∨
      Unreadable (allocation a.sizes) ∧ ¬ Nested (brackets e.index) := by
  obtain ⟨e', he', -, hsizes⟩ := ArrayShape.exists_element ha
  obtain rfl : e' = e := Option.some.inj (he'.symm.trans he)
  rw [hsizes]
  obtain hwhole | ⟨front, c, back, hindex, hfront, hc⟩ := Element.whole_or_closing he hitem
  · refine .inl ⟨whole_allocation (List.forall_mem_map.2 fun piece hpiece => ?_), hwhole.nested⟩
    exact whole_size (whole_of_mem_cutTopLevel (by decide) hwhole piece hpiece)
  · have hcomma : role ',' = .plain := by decide
    refine .inr ⟨?_, fun hnested => ?_⟩
    · obtain ⟨before, front', back', after, hcut, hbefore, hfront'⟩ :=
        exists_cutTopLevel_of_closing hcomma hfront hc back
      rw [hindex, hcut, List.map_append, List.map_cons]
      refine unreadable_allocation (List.forall_mem_map.2 fun piece hpiece => ?_) ?_
      · rw [Expr.afterAll_expression, Region.afterAll_congr (marks_trim piece),
          hbefore piece hpiece]
      · intro opened left hreads
        have hpiece := Expr.reads_of_reads_expression hreads
        rw [brackets, bracketsFrom_congr (marks_trim _)] at hpiece
        exact head?_of_reads_closing hfront' hc hpiece
    · rw [hindex] at hnested
      exact absurd (head?_of_reads_closing hfront hc (hnested.reads [])) (by simp)

theorem leadingArrays_eq_filterMap {items : List (List Char)} (h : allArrays items = true) :
    leadingArrays items = items.filterMap ArrayShape.ofText? := by
  induction items with
  | nil => rfl
  | cons item items ih =>
    obtain ⟨hitem, hitems⟩ := Bool.and_eq_true_iff.1 h
    obtain ⟨a, ha⟩ := Option.isSome_iff_exists.1 hitem
    rw [leadingArrays, ha, List.filterMap_cons_some ha, ih hitems]

/-! ### Dimensions -/

theorem nested_of_mem_dimensionItems {line item : List Char} (hline : Nested (brackets line))
    (h : item ∈ dimensionItems line) : Nested (brackets item) := by
  obtain ⟨piece, hpiece, rfl⟩ := List.mem_map.1 h
  have hitems : Nested (brackets (stripKey "dimension".toList line)) := by
    rwa [brackets, bracketsFrom_congr (marks_stripKey (by decide) line)]
  rw [brackets, bracketsFrom_congr (marks_trim piece)]
  exact nested_of_mem_cutTopLevel (by decide) hitems piece hpiece

/-- `let` and the names of arrays have no brackets. -/
theorem marks_withLets {fresh : List (List Char)} {arrays : List ArrayShape}
    (h : ∀ a ∈ arrays, IsIdentifier a.name) :
    marks (withLets fresh (arrays.map (·.write))).flatten =
      marks (arrays.map fun a => allocation a.sizes).flatten := by
  induction arrays generalizing fresh with
  | nil => rfl
  | cons a arrays ih =>
    obtain ⟨ha, harrays⟩ := List.forall_mem_cons.1 h
    have hequals : marks " = ".toList = [] := by decide
    have hend : marks ";".toList = [] := by decide
    have hrest : marks a.write.rest = marks (allocation a.sizes) := by
      rw [ArrayShape.write, marks_append, marks_append, hequals, hend, List.nil_append,
        List.append_nil]
    have hlet : marks "let ".toList = [] := by decide
    have hname : marks a.write.target = [] := marks_of_isIdentifier ha
    rw [List.map_cons, List.map_cons, List.flatten_cons, marks_append, withLets]
    split <;> rw [List.flatten_cons, marks_append, ih harrays, marks_append, hrest]
    · rw [marks_append, hlet, hname, List.nil_append, List.nil_append]
    · rw [hname, List.nil_append]

theorem nested_dimension_iff {line : List Char} (names : Names)
    (hall : allArrays (dimensionItems line) = true) :
    Nested (brackets (dimension line names).1) ↔
      Nested (brackets
        (((dimensionItems line).filterMap ArrayShape.ofText?).map
          fun a => allocation a.sizes).flatten) := by
  have hnames : ∀ a ∈ (dimensionItems line).filterMap ArrayShape.ofText?, IsIdentifier a.name := by
    intro a ha
    obtain ⟨item, -, hitem⟩ := List.mem_filterMap.1 ha
    exact ArrayShape.name_isIdentifier hitem
  rw [dimension_fst, if_pos hall, leadingArrays_eq_filterMap hall, brackets,
    bracketsFrom_congr ((marks_join (by decide) _).trans (marks_withLets hnames)), brackets]

/-- **The code of a dimension.**  For every line that is well nested and whose items are all arrays,
the code is well nested exactly if the index of each item is, which is the text between the first
square bracket of the item and its last character. -/
theorem dimension_nested_iff (line : List Char) (names : Names) (hline : Nested (brackets line))
    (haccepted : (dimension line names).1 ≠ "// ".toList ++ line) :
    Nested (brackets (dimension line names).1) ↔
      ∀ item ∈ dimensionItems line, ∀ e ∈ Element.ofText? item, Nested (brackets e.index) := by
  have hall : allArrays (dimensionItems line) = true := by
    rw [← Bool.not_eq_false, allArrays_eq_false_iff]
    exact mt (dimension_eq_comment_iff line names).2 haccepted
  have hitem : ∀ item ∈ dimensionItems line, Nested (brackets item) := fun item =>
    nested_of_mem_dimensionItems hline
  rw [nested_dimension_iff names hall, nested_flatten_iff]
  · constructor
    · intro hwhole item hmem e he
      obtain ⟨a, ha⟩ := Option.isSome_iff_exists.1 (List.all_eq_true.1 hall item hmem)
      have hcode := hwhole _ (List.mem_map_of_mem (List.mem_filterMap.2 ⟨item, hmem, ha⟩))
      obtain ⟨-, hindex⟩ | ⟨hbad, -⟩ :=
        ArrayShape.whole_or_unreadable ha he (hitem item hmem)
      · exact hindex
      · exact absurd hcode.nested hbad.not_nested
    · intro hindices
      refine List.forall_mem_map.2 fun a ha => ?_
      obtain ⟨item, hmem, ha⟩ := List.mem_filterMap.1 ha
      obtain ⟨e, he, -⟩ := ArrayShape.exists_element ha
      obtain ⟨hwhole, -⟩ | ⟨-, hbad⟩ := ArrayShape.whole_or_unreadable ha he (hitem item hmem)
      · exact hwhole
      · exact absurd (hindices item hmem e he) hbad
  · refine List.forall_mem_map.2 fun a ha => ?_
    obtain ⟨item, hmem, ha⟩ := List.mem_filterMap.1 ha
    obtain ⟨e, he, -⟩ := ArrayShape.exists_element ha
    exact (ArrayShape.whole_or_unreadable ha he (hitem item hmem)).imp And.left And.left

/-- Sizes with brackets of all shapes, a call and a bracket in a literal, and one name that has been
declared. -/
theorem dimension_nested_with_elements :
    let line := "Dimension v[w[1] + azar(n)], m[f(2, \x7b3\x7d), \"]\"]".toList
    let names : Names := ⟨["m".toList]⟩
    Nested (brackets line) ∧ (dimension line names).1 ≠ "// ".toList ++ line ∧
      Nested (brackets (dimension line names).1) := by
  intro line names
  have hline : Nested (brackets line) := by decide +revert +kernel
  have haccepted : (dimension line names).1 ≠ "// ".toList ++ line := by decide +revert +kernel
  refine ⟨hline, haccepted, (dimension_nested_iff line names hline haccepted).2 ?_⟩
  decide +revert +kernel

/-- Two pairs of square brackets behind one name are taken for one pair. -/
theorem dimension_with_two_indices :
    let line := "Dimension v[1][2]".toList
    Nested (brackets line) ∧
      dimension line ⟨[]⟩ = ("let v = new Array(1][2);".toList, ⟨["v".toList]⟩) ∧
      ¬ Nested (brackets (dimension line ⟨[]⟩).1) := by
  decide +kernel

end Statement

end Pseudocode
