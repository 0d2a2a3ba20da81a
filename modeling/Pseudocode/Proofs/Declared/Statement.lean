import Mathlib.Data.List.Nodup
import Pseudocode.Header.Counted
import Pseudocode.Statement.Declaration
import Pseudocode.Statement.Dimension
import Pseudocode.Statement.Input
import Pseudocode.Statement.Simple

/-!
# Where `let` stands

The converters write statements that give values to targets, and put `let` in front of a statement
if it is the first one for a name.  So their text is settled by the statements without `let` and by
the names that are new, and these are found without looking at the text.

* `Names.declareAll` and its lemmas : the names that are new are distinct, and none of them has been
  declared.
* `Write`, `withLets` : statements, and their text with `let` for the names that are new.
* `writeAll_eq` : **`let` stands in front of the first statement for each new name.**
* `allocateAll_eq`, `readTargets_eq`, `assignment_eq` : the same for each of the converters.
-/

namespace Pseudocode

namespace Names

variable {names : Names} {name : List Char} {ns : List (List Char)}

theorem contains_iff : names.contains name = true ↔ name ∈ names.toList := decide_eq_true_iff

theorem declare_of_mem (h : name ∈ names.toList) : names.declare name = (false, names) :=
  if_pos (contains_iff.2 h)

theorem declare_of_notMem (h : name ∉ names.toList) :
    names.declare name = (true, ⟨names.toList ++ [name]⟩) :=
  if_neg (contains_iff.not.2 h)

theorem declareAll_cons_of_mem (h : name ∈ names.toList) :
    names.declareAll (name :: ns) = names.declareAll ns := by
  simp only [declareAll, declare, contains_iff.2 h, if_true, Bool.false_eq_true, if_false]

theorem declareAll_cons_of_notMem (h : name ∉ names.toList) :
    names.declareAll (name :: ns) =
      (name :: (declareAll ⟨names.toList ++ [name]⟩ ns).1,
        (declareAll ⟨names.toList ++ [name]⟩ ns).2) := by
  simp only [declareAll, declare, contains_iff, h, if_false, if_true]

theorem toList_declareAll (names : Names) (ns : List (List Char)) :
    (names.declareAll ns).2.toList = names.toList ++ (names.declareAll ns).1 := by
  induction ns generalizing names with
  | nil => exact (List.append_nil _).symm
  | cons n ns ih =>
    by_cases h : n ∈ names.toList
    · rw [declareAll_cons_of_mem h, ih]
    · rw [declareAll_cons_of_notMem h, ih, List.append_assoc, List.singleton_append]

theorem mem_declareAll_iff {names : Names} :
    name ∈ (names.declareAll ns).2.toList ↔ name ∈ names.toList ∨ name ∈ ns := by
  induction ns generalizing names with
  | nil => simp [declareAll]
  | cons n ns ih =>
    by_cases h : n ∈ names.toList
    · rw [declareAll_cons_of_mem h, ih, List.mem_cons]
      refine ⟨Or.imp_right .inr, ?_⟩
      rintro (hn | rfl | hn)
      · exact .inl hn
      · exact .inl h
      · exact .inr hn
    · rw [declareAll_cons_of_notMem h, ih]
      simp only [List.mem_append, List.mem_cons, List.not_mem_nil, or_false, or_assoc]

theorem notMem_of_mem_declareAll {names : Names} (h : name ∈ (names.declareAll ns).1) :
    name ∉ names.toList := by
  induction ns generalizing names with
  | nil => cases h
  | cons n ns ih =>
    by_cases hn : n ∈ names.toList
    · rw [declareAll_cons_of_mem hn] at h
      exact ih h
    · rw [declareAll_cons_of_notMem hn] at h
      obtain rfl | h := List.mem_cons.1 h
      · exact hn
      · exact fun hmem => ih h (List.mem_append_left _ hmem)

theorem mem_declareAll_fst_iff {names : Names} :
    name ∈ (names.declareAll ns).1 ↔ name ∈ ns ∧ name ∉ names.toList := by
  have hall : name ∈ (names.declareAll ns).2.toList ↔ _ := mem_declareAll_iff
  rw [toList_declareAll, List.mem_append] at hall
  refine ⟨fun h => ?_, fun ⟨hmem, hnew⟩ => (hall.2 (.inr hmem)).resolve_left hnew⟩
  have hnew := notMem_of_mem_declareAll h
  exact ⟨(hall.1 (.inr h)).resolve_left hnew, hnew⟩

theorem nodup_declareAll (names : Names) (ns : List (List Char)) :
    (names.declareAll ns).1.Nodup := by
  induction ns generalizing names with
  | nil => exact List.nodup_nil
  | cons n ns ih =>
    by_cases h : n ∈ names.toList
    · rw [declareAll_cons_of_mem h]
      exact ih names
    · rw [declareAll_cons_of_notMem h]
      refine List.nodup_cons.2 ⟨fun hmem => ?_, ih _⟩
      exact notMem_of_mem_declareAll hmem (List.mem_append_right _ (List.mem_singleton_self n))

end Names

namespace Statement

/-! ### Statements with and without `let` -/

/-- A statement that gives a value to a target, as it stands without `let`. -/
structure Write where
  /-- The name of what gets the value. -/
  target : List Char
  /-- The target is the name itself, which is declared at its first use, and no element. -/
  isPlain : Bool
  /-- The code behind the name. -/
  rest : List Char
  deriving DecidableEq, Repr

/-- The names that statements declare. -/
def plainTargets (ws : List Write) : List (List Char) :=
  (ws.filter (·.isPlain)).map (·.target)

/-- The statements, with `let` in front of the first one for each of the given names. -/
def withLets : (fresh : List (List Char)) → List Write → List (List Char)
  | _, [] => []
  | fresh, w :: ws =>
    if w.isPlain && fresh.contains w.target then
      ("let ".toList ++ w.target ++ w.rest) :: withLets (fresh.erase w.target) ws
    else (w.target ++ w.rest) :: withLets fresh ws

theorem flatten_withLets_singleton (fresh : List (List Char)) (w : Write) :
    (withLets fresh [w]).flatten = (if w.isPlain && fresh.contains w.target then "let ".toList
      else []) ++ w.target ++ w.rest := by
  rw [withLets]
  split <;> exact List.append_nil _

/-- The statements as they are written one after the other. -/
def writeAll : List Write → Names → List (List Char) × Names
  | [], names => ([], names)
  | w :: ws, names =>
    let (letWord, names) := if w.isPlain then names.introduce w.target else ([], names)
    let (statements, names) := writeAll ws names
    ((letWord ++ w.target ++ w.rest) :: statements, names)

/-- **`let` stands in front of the first statement for each name that is new,** and the names that
are declared afterwards are those of the statements. -/
theorem writeAll_eq (ws : List Write) (names : Names) :
    writeAll ws names = (withLets (names.declareAll (plainTargets ws)).1 ws,
      (names.declareAll (plainTargets ws)).2) := by
  induction ws generalizing names with
  | nil => rfl
  | cons w ws ih =>
    cases hplain : w.isPlain with
    | false =>
      have htargets : plainTargets (w :: ws) = plainTargets ws := by simp [plainTargets, hplain]
      simp [writeAll, withLets, hplain, htargets, ih]
    | true =>
      have htargets : plainTargets (w :: ws) = w.target :: plainTargets ws := by
        simp [plainTargets, hplain]
      by_cases hmem : w.target ∈ names.toList
      · -- the name is declared, so it is not among the new ones
        have hold : w.target ∉ (names.declareAll (plainTargets ws)).1 := fun h =>
          Names.notMem_of_mem_declareAll h hmem
        have hintroduce : names.introduce w.target = ([], names) := by
          simp [Names.introduce, Names.declare, Names.contains_iff.2 hmem]
        rw [htargets, Names.declareAll_cons_of_mem hmem]
        simp [writeAll, withLets, hplain, hintroduce, hold, ih]
      · have hintroduce : names.introduce w.target =
            ("let ".toList, ⟨names.toList ++ [w.target]⟩) := by
          simp [Names.introduce, Names.declare, Names.contains_iff, hmem]
        -- `let` is used up here: later statements for the name find it declared
        rw [htargets, Names.declareAll_cons_of_notMem hmem]
        simp [writeAll, withLets, hplain, hintroduce, ih]

/-! ### Dimensions -/

/-- The statement that allocates an array. -/
def ArrayShape.write (a : ArrayShape) : Write :=
  ⟨a.name, true, " = ".toList ++ allocation a.sizes ++ ";".toList⟩

/-- The arrays that stand in front of the first item that is no array. -/
def leadingArrays : List (List Char) → List ArrayShape
  | [] => []
  | item :: items =>
    match ArrayShape.ofText? item with
    | some a => a :: leadingArrays items
    | none => []

/-- Every item is an array. -/
def allArrays (items : List (List Char)) : Bool :=
  items.all fun item => (ArrayShape.ofText? item).isSome

theorem allocateAll_eq (items : List (List Char)) (names : Names) :
    allocateAll items names =
      (if allArrays items then some (writeAll ((leadingArrays items).map (·.write)) names).1
        else none, (writeAll ((leadingArrays items).map (·.write)) names).2) := by
  induction items generalizing names with
  | nil => rfl
  | cons item items ih =>
    cases ha : ArrayShape.ofText? item with
    | none => simp [allocateAll, leadingArrays, allArrays, writeAll, ha]
    | some a =>
      have hitems : allArrays (item :: items) = allArrays items := by simp [allArrays, ha]
      simp only [allocateAll, leadingArrays, ha, ih, hitems, List.map_cons, writeAll,
        ArrayShape.allocate, ArrayShape.write, if_true, List.append_assoc]
      split <;> rfl

theorem plainTargets_arrays (arrays : List ArrayShape) :
    plainTargets (arrays.map (·.write)) = arrays.map (·.name) := by
  simp [plainTargets, ArrayShape.write, List.filter_map, Function.comp_def]

/-! ### Input -/

/-- The statement that reads a target. -/
def inputWrite (target : List Char) : Write :=
  match Element.ofText? target with
  | some element => ⟨element.array, false, "[".toList ++ element.index ++
      "] = parseFloat(prompt(\"Ingresa valor:\"));".toList⟩
  | none => ⟨target, true,
      " = parseFloat(prompt(\"Ingresa ".toList ++ target ++ ":\"));".toList⟩

theorem readTargets_eq (targets : List (List Char)) (names : Names) :
    readTargets targets names = writeAll (targets.map inputWrite) names := by
  induction targets generalizing names with
  | nil => rfl
  | cons target targets ih =>
    cases h : Element.ofText? target with
    | none =>
      simp only [readTargets, readTarget, h, ih, List.map_cons, writeAll, inputWrite, if_true,
        List.append_assoc]
    | some element =>
      simp only [readTargets, readTarget, h, ih, List.map_cons, writeAll, inputWrite,
        Bool.false_eq_true, if_false, List.nil_append, List.append_assoc]

theorem plainTargets_inputs (targets : List (List Char)) :
    plainTargets (targets.map inputWrite) =
      targets.filter fun target => (Element.ofText? target).isNone := by
  induction targets with
  | nil => rfl
  | cons target targets ih =>
    unfold plainTargets at ih ⊢
    cases h : Element.ofText? target <;> simp [inputWrite, h, ih]

/-! ### Assignments and loops -/

/-- The statement that assigns the right side to the left side. -/
def assignmentWrite (left right : List Char) : Write :=
  ⟨left, '[' ∉ left, " = ".toList ++ Expr.booleans (Expr.expression right) ++ ";".toList⟩

theorem assignment_eq {line left right : List Char}
    (h : assignmentSides? line = some (left, right)) (names : Names) :
    assignment line names = ((writeAll [assignmentWrite left right] names).1.flatten,
      (writeAll [assignmentWrite left right] names).2) := by
  simp only [assignment, h, writeAll, assignmentWrite, List.flatten_cons, List.flatten_nil,
    List.append_nil, List.append_assoc, decide_eq_true_iff]
  by_cases hleft : '[' ∈ left
  · simp only [hleft, if_true, not_true, if_false]
  · simp only [hleft, if_false, not_false_iff, if_true]

theorem plainTargets_assignment (left right : List Char) :
    plainTargets [assignmentWrite left right] = if '[' ∈ left then [] else [left] := by
  by_cases h : '[' ∈ left <;> simp [plainTargets, assignmentWrite, h]

end Statement

/-- The head of a counted loop, behind its opening parenthesis. -/
def Header.CountedLoop.write (loop : CountedLoop) : Statement.Write :=
  ⟨loop.counter, true, " = ".toList ++ Expr.expression (Text.trim loop.first) ++ "; ".toList ++
    loop.counter ++ (if loop.stepCode.head? = some '-' then " >= ".toList else " <= ".toList) ++
    Expr.expression (Text.trim loop.last) ++ "; ".toList ++ loop.counter ++ " += ".toList ++
    loop.stepCode ++ ") \x7b".toList⟩

theorem Header.CountedLoop.code_eq (loop : CountedLoop) (names : Names) :
    loop.code names = "for (".toList ++ ((if names.contains loop.counter then [] else
      "let ".toList) ++ (loop.counter ++ loop.write.rest)) := by
  unfold code write
  simp only [List.append_assoc]

end Pseudocode
