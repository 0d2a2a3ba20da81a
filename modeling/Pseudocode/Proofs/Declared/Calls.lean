import Pseudocode.Layout
import Pseudocode.Proofs.Declared.Statement

/-!
# Names are introduced once

A routine is converted statement by statement, and all its statements share the names that have been
declared.  Whatever statements come in whatever order, a name is introduced with `let` at most once
among them, and never if it had been declared at the start.  The counter of a loop is the exception:
it is introduced by each loop that finds it undeclared, for that loop alone.

* `Call`, `Call.run` : a statement that may declare names, and its conversion.
* `Call.declared`, `Call.lets` : the names that it declares, and those that it writes `let` for.
* `Call.run_snd`, `Call.run_fst` : **what a conversion declares and where it writes `let`.**
* `introduced_once` : the names that a whole run introduces.
-/

namespace Pseudocode

open Statement Header

/-- A statement whose conversion looks at the declared names. -/
inductive Call
  /-- `Definir`. -/
  | declaration (line : List Char)
  /-- `Dimension`. -/
  | dimension (line : List Char)
  /-- `Leer`, at a depth. -/
  | input (line : List Char) (depth : Nat)
  /-- An assignment. -/
  | assignment (line : List Char)
  /-- The header of a `Para`. -/
  | countedLoop (line : List Char)
  deriving DecidableEq, Repr

namespace Call

/-- Converts the statement. -/
def run (names : Names) : Call → List Char × Names
  | declaration line => Statement.declaration line names
  | dimension line => Statement.dimension line names
  | input line depth =>
    let (pieces, names) := Statement.input line depth names
    (render pieces, names)
  | assignment line => Statement.assignment line names
  | countedLoop line => ((countedLoop? line names).getD (unconvertedLoop line), names)

/-- The names that the statement declares: all names of a `Definir`, the arrays of a `Dimension` up
to an item that is none, and the targets of a `Leer` or an assignment that are no elements. -/
def declared : Call → List (List Char)
  | declaration line => declaredNames line
  | dimension line => (leadingArrays (dimensionItems line)).map (·.name)
  | input line _ => (inputTargets line).filter fun target => (Element.ofText? target).isNone
  | assignment line =>
    match assignmentSides? line with
    | some (left, _) => if '[' ∈ left then [] else [left]
    | none => []
  | countedLoop _ => []

/-- The names that `let` is written for.  A `Dimension` that is kept as a comment has none. -/
def lets (names : Names) : Call → List (List Char)
  | dimension line =>
    if allArrays (dimensionItems line) then (names.declareAll (dimension line).declared).1 else []
  | countedLoop line =>
    match CountedLoop.ofText? line with
    | some loop => if names.contains loop.counter then [] else [loop.counter]
    | none => []
  | c => (names.declareAll c.declared).1

/-- The text of the statement if `let` is written for the given names. -/
def textWith (fresh : List (List Char)) : Call → List Char
  | declaration _ =>
    if fresh.isEmpty then [] else "let ".toList ++ Text.join ", ".toList fresh ++ ";".toList
  | dimension line =>
    if allArrays (dimensionItems line) then
      Text.join " ".toList (withLets fresh ((leadingArrays (dimensionItems line)).map (·.write)))
    else "// ".toList ++ line
  | input line depth =>
    render ((withLets fresh ((inputTargets line).map inputWrite)).map (.line depth))
  | assignment line =>
    match assignmentSides? line with
    | some (left, right) => (withLets fresh [assignmentWrite left right]).flatten
    | none => "// ".toList ++ line
  | countedLoop line =>
    match CountedLoop.ofText? line with
    | some loop => "for (".toList ++ (withLets fresh [loop.write]).flatten
    | none => unconvertedLoop line

/-- The names that the statement introduces for what follows it, which the counter of a loop is
not. -/
def introduced (names : Names) : Call → List (List Char)
  | countedLoop _ => []
  | c => c.lets names

/-- **A statement declares its names and nothing else.** -/
theorem run_snd (c : Call) (names : Names) :
    (c.run names).2 = (names.declareAll c.declared).2 := by
  cases c with
  | declaration line => rfl
  | dimension line =>
    simp only [run, declared, Statement.dimension, allocateAll_eq, writeAll_eq,
      plainTargets_arrays]
    -- a line that is kept as a comment has declared the arrays before the item that is none
    cases allArrays (dimensionItems line) <;> rfl
  | input line depth =>
    simp only [run, declared, Statement.input, readTargets_eq, writeAll_eq, plainTargets_inputs]
  | assignment line =>
    cases h : assignmentSides? line with
    | none => simp only [run, declared, Statement.assignment, h, Names.declareAll]
    | some sides =>
      simp only [run, declared, assignment_eq h, h, writeAll_eq, plainTargets_assignment]
  | countedLoop line => rfl

/-- **`let` is written in front of the first mention of each of `lets` and nowhere else.** -/
theorem run_fst (c : Call) (names : Names) : (c.run names).1 = c.textWith (c.lets names) := by
  cases c with
  | declaration line => rfl
  | dimension line =>
    simp only [run, textWith, lets, declared, Statement.dimension, allocateAll_eq, writeAll_eq,
      plainTargets_arrays]
    cases allArrays (dimensionItems line) <;> rfl
  | input line depth =>
    simp only [run, textWith, lets, declared, Statement.input, readTargets_eq, writeAll_eq,
      plainTargets_inputs]
  | assignment line =>
    cases h : assignmentSides? line with
    | none => simp only [run, textWith, Statement.assignment, h]
    | some sides =>
      simp only [run, textWith, lets, declared, assignment_eq h, h, writeAll_eq,
        plainTargets_assignment]
  | countedLoop line =>
    cases h : CountedLoop.ofText? line with
    | none => simp only [run, textWith, countedLoop?, h, Option.map_none, Option.getD_none]
    | some loop =>
      simp only [run, textWith, lets, countedLoop?, h, Option.map_some, Option.getD_some,
        loop.code_eq, flatten_withLets_singleton]
      have hself : (loop.write.isPlain && [loop.counter].contains loop.write.target) = true :=
        List.contains_iff_mem.2 (List.mem_singleton_self _)
      cases names.contains loop.counter with
      | true => rfl
      | false =>
        simp only [Bool.false_eq_true, if_false, hself, if_true, List.append_assoc]
        rfl

theorem mem_run_iff {c : Call} {names : Names} {name : List Char} :
    name ∈ (c.run names).2.toList ↔ name ∈ names.toList ∨ name ∈ c.declared := by
  rw [run_snd]
  exact Names.mem_declareAll_iff

theorem introduced_sublist (c : Call) (names : Names) :
    (c.introduced names).Sublist (names.declareAll c.declared).1 := by
  cases c with
  | countedLoop line => exact List.nil_sublist _
  | dimension line =>
    change (if _ then _ else []).Sublist _
    split
    · exact List.Sublist.refl _
    · exact List.nil_sublist _
  | declaration line => exact List.Sublist.refl _
  | input line depth => exact List.Sublist.refl _
  | assignment line => exact List.Sublist.refl _

theorem introduced_subset_run (c : Call) (names : Names) :
    c.introduced names ⊆ (c.run names).2.toList := by
  intro name hname
  rw [run_snd, Names.toList_declareAll]
  exact List.mem_append_right _ ((introduced_sublist c names).subset hname)

end Call

/-! ### Runs -/

/-- The declared names after statements have been converted one after the other. -/
def namesAfter (names : Names) (calls : List Call) : Names :=
  calls.foldl (fun names c => (c.run names).2) names

/-- The names that statements introduce, one statement after the other. -/
def introducedBy (names : Names) : List Call → List (List Char)
  | [] => []
  | c :: calls => c.introduced names ++ introducedBy (c.run names).2 calls

theorem notMem_of_mem_introducedBy {names : Names} {calls : List Call} {name : List Char}
    (h : name ∈ introducedBy names calls) : name ∉ names.toList := by
  induction calls generalizing names with
  | nil => cases h
  | cons c calls ih =>
    obtain hhere | hlater := List.mem_append.1 h
    · exact Names.notMem_of_mem_declareAll ((c.introduced_sublist names).subset hhere)
    · exact fun hmem => ih hlater (Call.mem_run_iff.2 (.inl hmem))

theorem nodup_introducedBy (names : Names) (calls : List Call) :
    (introducedBy names calls).Nodup := by
  induction calls generalizing names with
  | nil => exact List.nodup_nil
  | cons c calls ih =>
    have hhere : (c.introduced names).Nodup :=
      (names.nodup_declareAll c.declared).sublist (c.introduced_sublist names)
    refine List.nodup_append'.2 ⟨hhere, ih _, fun name hmem hlater => ?_⟩
    -- what has been introduced here is declared for all that follows
    exact notMem_of_mem_introducedBy hlater (c.introduced_subset_run names hmem)

/-- If a text goes on as it does behind `let `, it repeats these four characters and never gets to
the sign of assignment. -/
theorem not_let_isPrefix : ∀ v rest : List Char,
    ¬ 'l' :: 'e' :: 't' :: ' ' :: (v ++ [' ', '=']) <+: v ++ (' ' :: '=' :: rest)
  | [], _ | [_], _ | [_, _], _ => by simp
  | [a, b, c], rest => by
    simp only [List.cons_append, List.nil_append, List.cons_prefix_cons]
    rintro ⟨rfl, rfl, rfl, -, h, -⟩
    exact absurd h (by decide)
  | a :: b :: c :: d :: v, rest => by
    -- the first four characters are `let ` again, and the same question is left about the others
    simp only [List.cons_append, List.cons_prefix_cons]
    rintro ⟨rfl, rfl, rfl, rfl, h⟩
    exact not_let_isPrefix v rest h

theorem Header.CountedLoop.let_isPrefix_code_iff (loop : CountedLoop) (names : Names) :
    "for (let ".toList ++ loop.counter ++ " =".toList <+: loop.code names ↔
      loop.counter ∉ names.toList := by
  obtain ⟨rest, hrest⟩ : ∃ rest, loop.write.rest = ' ' :: '=' :: rest := by
    unfold write
    simp only [List.append_assoc]
    exact ⟨_, rfl⟩
  have hfor : "for (let ".toList ++ loop.counter ++ " =".toList =
      "for (".toList ++ ("let ".toList ++ (loop.counter ++ [' ', '='])) := by
    rw [List.append_assoc]
    rfl
  rw [loop.code_eq, hrest, hfor, List.prefix_append_right_inj]
  by_cases h : loop.counter ∈ names.toList
  · rw [if_pos (Names.contains_iff.2 h)]
    exact iff_of_false (not_let_isPrefix _ _) (not_not_intro h)
  · rw [if_neg (Names.contains_iff.not.2 h), List.prefix_append_right_inj,
      List.prefix_append_right_inj]
    exact iff_of_true ⟨rest, rfl⟩ h

/-- **A name is introduced at most once.**  Whatever statements have been converted, the names that
they introduced are distinct and were not declared before.  The next statement writes `let` for the
names in `lets`, adds the names it declares and keeps all others; the header of a loop introduces
its counter if and only if that is not declared. -/
theorem introduced_once (declared : Names) (calls : List Call) :
    let before := namesAfter declared calls
    ((introducedBy declared calls).Nodup ∧
      ∀ name ∈ introducedBy declared calls, name ∉ declared.toList) ∧
    (∀ c : Call, (c.run before).1 = c.textWith (c.lets before) ∧
      ∀ name, name ∈ (c.run before).2.toList ↔ name ∈ before.toList ∨ name ∈ c.declared) ∧
    ∀ line loop, CountedLoop.ofText? line = some loop →
      ("for (let ".toList ++ loop.counter ++ " =".toList <+:
          ((Call.countedLoop line).run before).1 ↔ loop.counter ∉ before.toList) := by
  intro before
  refine ⟨⟨nodup_introducedBy declared calls, fun _ => notMem_of_mem_introducedBy⟩,
    fun c => ⟨c.run_fst before, fun _ => Call.mem_run_iff⟩, fun line loop h => ?_⟩
  have hrun : ((Call.countedLoop line).run before).1 = loop.code before := by
    simp only [Call.run, countedLoop?, h, Option.map_some, Option.getD_some]
  rw [hrun]
  exact loop.let_isPrefix_code_iff before

/-- The array `m` is declared by a line that is kept as a comment, so nothing introduces it, and a
loop introduces its counter although an earlier one did. -/
theorem introduced_once_in_mixed_statements :
    let line := "Para i <- 1 Hasta n Hacer".toList
    let loop : CountedLoop := ⟨"i".toList, "1".toList, "n".toList, none⟩
    let declared : Names := ⟨["n".toList]⟩
    let calls := [.declaration "Definir a, n, a Como Entero".toList, .countedLoop line,
      .input "Leer a, v[i], b".toList 1, .dimension "Dimension m[3], c".toList,
      .assignment "m <- b".toList, .assignment "c <- 1".toList]
    let before := namesAfter declared calls
    (CountedLoop.ofText? line = some loop ∧
      introducedBy declared calls = ["a".toList, "b".toList, "c".toList]) ∧
    (introducedBy declared calls).Nodup ∧ "a".toList ∉ declared.toList ∧
    ("for (let ".toList ++ loop.counter ++ " =".toList <+:
        ((Call.countedLoop line).run before).1 ↔ loop.counter ∉ before.toList) := by
  intro line loop declared calls before
  have hline : CountedLoop.ofText? line = some loop := by decide +kernel
  have hnames : introducedBy declared calls = ["a".toList, "b".toList, "c".toList] := by
    decide +kernel
  obtain ⟨⟨hnodup, hnew⟩, -, hloop⟩ := introduced_once declared calls
  have ha : "a".toList ∈ introducedBy declared calls := hnames ▸ List.mem_cons_self
  exact ⟨⟨hline, hnames⟩, hnodup, hnew _ ha, hloop line loop hline⟩

end Pseudocode
