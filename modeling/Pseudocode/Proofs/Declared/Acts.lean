import Pseudocode.Proofs.Declared.Forms

/-!
# Names and blocks in generated code

A name that `let` introduces is visible in the block in which the `let` stands.  The acts of
generated code are what it does to names and to blocks, in order; from them it is found which names
are visible where, and they are given for each line that a routine converts.

* `Act`, `visible` : the acts, and the names that can be used after them.
* `mem_visible_of_binds`, `mem_visible_of_opens` : a name is visible until its block ends.
* `Form.acts`, `Routine.acts` : the acts of generated lines.
* `Routine.feedBody_names` : a line adds the names that it declares.
* `SourceLine.binds_mem_acts_iff` : **the names that a line binds.**
-/

namespace Pseudocode

open Statement Header

/-! ### Blocks -/

/-- What generated code does to names and blocks. -/
inductive Act
  /-- Introduces a name in the innermost block. -/
  | binds (name : List Char)
  /-- Gives a value to a name without introducing it. -/
  | assigns (name : List Char)
  /-- Opens a block, in which the counter of a loop may be introduced. -/
  | opens (counter : Option (List Char))
  /-- Closes the innermost block and opens another one. -/
  | turns
  /-- Closes the innermost block. -/
  | closes
  deriving DecidableEq, Repr

/-- The names that each open block has introduced, innermost block first, after an act. -/
def Act.after : (blocks : List (List (List Char))) → Act → List (List (List Char))
  | [], binds x => [[x]]
  | block :: blocks, binds x => (x :: block) :: blocks
  | blocks, assigns _ => blocks
  | blocks, opens counter => counter.toList :: blocks
  | blocks, turns => [] :: blocks.tail
  | blocks, closes => blocks.tail

/-- The names that are visible after acts in the body of a routine. -/
def visible (acts : List Act) : List (List Char) := (acts.foldl Act.after [[]]).flatten

/-- Acts end a block with the given number of open blocks inside it. -/
def endsBlock : (inner : Nat) → List Act → Bool
  | _, [] => false
  | n, .opens _ :: acts => endsBlock (n + 1) acts
  | 0, .turns :: _ | 0, .closes :: _ => true
  | n + 1, .turns :: acts => endsBlock (n + 1) acts
  | n + 1, .closes :: acts => endsBlock n acts
  | n, .binds _ :: acts | n, .assigns _ :: acts => endsBlock n acts

/-- What a block has introduced stays visible as long as the block is open. -/
theorem mem_flatten_foldl_after {x : List Char} {acts : List Act} {block : List (List Char)}
    (inner outer : List (List (List Char))) (hx : x ∈ block)
    (hopen : endsBlock inner.length acts = false) :
    x ∈ (acts.foldl Act.after (inner ++ block :: outer)).flatten := by
  induction acts generalizing inner block with
  | nil => exact List.mem_flatten.2 ⟨block, List.mem_append_right _ List.mem_cons_self, hx⟩
  | cons act acts ih =>
    -- the innermost block is the given one or lies inside it
    cases inner with
    | nil =>
      cases act with
      | binds y => exact ih [] (List.mem_cons_of_mem y hx) hopen
      | assigns y => exact ih [] hx hopen
      | opens counter => exact ih [counter.toList] hx hopen
      | turns | closes => cases hopen
    | cons first inner =>
      cases act with
      | binds y => exact ih ((y :: first) :: inner) hx hopen
      | assigns y => exact ih (first :: inner) hx hopen
      | opens counter => exact ih (counter.toList :: first :: inner) hx hopen
      | turns => exact ih ([] :: inner) hx hopen
      | closes => exact ih inner hx hopen

/-- A name is visible from its binding to the end of the block in which that stands. -/
theorem mem_visible_of_binds {x : List Char} (earlier : List Act) {since : List Act}
    (hopen : endsBlock 0 since = false) : x ∈ visible (earlier ++ .binds x :: since) := by
  rw [visible, List.foldl_append, List.foldl_cons]
  cases earlier.foldl Act.after [[]] with
  | nil => exact mem_flatten_foldl_after [] [] List.mem_cons_self hopen
  | cons block blocks => exact mem_flatten_foldl_after [] blocks List.mem_cons_self hopen

theorem mem_visible_of_opens {x : List Char} (earlier : List Act) {since : List Act}
    (hopen : endsBlock 0 since = false) : x ∈ visible (earlier ++ .opens (some x) :: since) := by
  rw [visible, List.foldl_append, List.foldl_cons]
  have hafter : ∀ blocks, Act.after blocks (.opens (some x)) = [x] :: blocks := by
    intro blocks
    cases blocks <;> rfl
  rw [hafter]
  exact mem_flatten_foldl_after [] _ List.mem_cons_self hopen

/-! ### What lines do to names -/

/-- What a statement does to names; one that gives a value to an element does nothing. -/
def Statement.Emitted.acts (e : Emitted) : List Act :=
  if e.write.isPlain then
    [if e.isLet then .binds e.write.target else .assigns e.write.target]
  else []

/-- What a line of generated code does to names and blocks. -/
def Form.acts : Form → List Act
  | comment _ | plain _ => []
  | lets names => names.map .binds
  | writes statements => statements.flatMap (·.acts)
  | opens _ => [.opens none]
  | loop head =>
    if head.isLet then [.opens (some head.write.target)]
    else [.assigns head.write.target, .opens none]
  | turns => [.turns]
  | closes _ => [.closes]

/-- What is done to names and blocks by the code that is written for a line. -/
def SourceLine.acts (l : SourceLine) (names : Names) : List Act :=
  (l.forms names).flatMap (·.acts)

/-- What is done to names and blocks by the code that is written for the lines of a routine. -/
def Routine.acts (r : Routine) (ls : List SourceLine) : List Act :=
  (r.codeLines ls).flatMap (·.form.acts)

theorem Routine.acts_cons (r : Routine) (l : SourceLine) (ls : List SourceLine) :
    r.acts (l :: ls) = l.acts r.scope.names ++ (r.feedBody l).2.acts ls := by
  simp only [acts, codeLines, SourceLine.acts, List.flatMap_append, List.flatMap_map]

/-- The names that a line of the given kind declares. -/
def LineKind.declared (line : List Char) : LineKind → List (List Char)
  | declaration => (Call.declaration line).declared
  | dimension => (Call.dimension line).declared
  | input => (Call.input line 0).declared
  | assignment => (Call.assignment line).declared
  | _ => []

/-- The names that a line of a routine declares. -/
def SourceLine.declared (l : SourceLine) : List (List Char) :=
  if l.isComment then []
  else
    match l.kind? with
    | some kind => kind.declared l.code
    | none => []

/-- The line is a `Dimension` that is kept as a comment. -/
def SourceLine.isKeptDimension (l : SourceLine) : Bool :=
  !l.isComment && l.kind? == some .dimension && !allArrays (dimensionItems l.code)

theorem Routine.feedKind_names (r : Routine) (l : SourceLine) (kind : LineKind) :
    (r.feedKind l kind).2.scope.names = (r.scope.names.declareAll (kind.declared l.code)).2 := by
  cases kind with
  | declaration => exact (Call.declaration l.code).run_snd r.scope.names
  | dimension => exact (Call.dimension l.code).run_snd r.scope.names
  | input => exact (Call.input l.code 0).run_snd r.scope.names
  | assignment => exact (Call.assignment l.code).run_snd r.scope.names
  | countedLoop => simp only [feedKind]; split <;> rfl
  | _ => rfl

/-- **A line adds the names that it declares.** -/
theorem Routine.feedBody_names (r : Routine) (l : SourceLine) :
    (r.feedBody l).2.scope.names = (r.scope.names.declareAll l.declared).2 := by
  unfold feedBody SourceLine.declared
  split
  · rfl
  · simp only [feed, convertLine]
    cases l.kind? with
    | none => rfl
    | some kind => exact r.feedKind_names l kind

theorem binds_mem_emitAll_iff {ws : List Write} {names : Names} {x : List Char} :
    .binds x ∈ (emitAll ws names).flatMap (·.acts) ↔
      x ∈ (names.declareAll (plainTargets ws)).1 := by
  induction ws generalizing names with
  | nil => simp [emitAll, plainTargets, Names.declareAll]
  | cons w ws ih =>
    cases hplain : w.isPlain with
    | false =>
      have htargets : plainTargets (w :: ws) = plainTargets ws := by simp [plainTargets, hplain]
      rw [emitAll_cons_of_element hplain, htargets, ← ih]
      simp [Emitted.acts, hplain]
    | true =>
      have htargets : plainTargets (w :: ws) = w.target :: plainTargets ws := by
        simp [plainTargets, hplain]
      rw [emitAll_cons_of_plain hplain, htargets]
      by_cases hmem : w.target ∈ names.toList
      · rw [Names.declare_of_mem hmem, Names.declareAll_cons_of_mem hmem, ← ih]
        simp [Emitted.acts, hplain]
      · rw [Names.declare_of_notMem hmem, Names.declareAll_cons_of_notMem hmem, List.mem_cons, ← ih]
        simp [Emitted.acts, hplain]

theorem LineKind.binds_mem_iff {kind : LineKind} {line : List Char} {names : Names}
    {x : List Char} :
    .binds x ∈ (kind.forms line names).flatMap (·.acts) ↔
      x ∈ (names.declareAll (kind.declared line)).1 ∧
        ¬ (kind = .dimension ∧ allArrays (dimensionItems line) = false) := by
  cases kind with
  | declaration => simp [forms, Form.acts, declared, Call.declared]
  | dimension =>
    cases h : allArrays (dimensionItems line) with
    | false => simp [forms, Form.acts, h]
    | true =>
      simp only [forms, h, if_true, List.flatMap_singleton, Form.acts, binds_mem_emitAll_iff,
        plainTargets_arrays, declared, Call.declared]
      simp
  | input =>
    simp only [forms, List.flatMap_map, Form.acts, List.flatMap_singleton, binds_mem_emitAll_iff,
      plainTargets_inputs, declared, Call.declared]
    simp
  | assignment =>
    cases h : assignmentSides? line with
    | none => simp [forms, Form.acts, declared, Call.declared, h, Names.declareAll]
    | some sides =>
      simp only [forms, h, List.flatMap_singleton, Form.acts, binds_mem_emitAll_iff,
        plainTargets_assignment, declared, Call.declared]
      simp
  | countedLoop =>
    simp only [forms]
    split
    · simp only [List.flatMap_singleton, Form.acts]
      split <;> simp [declared, Names.declareAll]
    · simp [Form.acts, declared, Names.declareAll]
  | _ => simp [forms, Form.acts, declared, Names.declareAll]

/-- **A line binds the names that it declares and that are new,** unless it is a `Dimension` that is
kept as a comment. -/
theorem SourceLine.binds_mem_acts_iff {l : SourceLine} {names : Names} {x : List Char} :
    .binds x ∈ l.acts names ↔
      x ∈ l.declared ∧ x ∉ names.toList ∧ l.isKeptDimension = false := by
  unfold acts forms declared isKeptDimension
  cases l.isComment with
  | true => simp [Form.acts]
  | false =>
    cases l.kind? with
    | none => simp [Form.acts]
    | some kind =>
      have h : .binds x ∈ (kind.forms l.code names).flatMap (·.acts) ↔ _ := LineKind.binds_mem_iff
      rw [Names.mem_declareAll_fst_iff, and_assoc] at h
      simpa using h

end Pseudocode
