import Pseudocode.Proofs.Declared.Acts

/-!
# Where names are visible

The names that a routine has declared are kept for the whole routine, whatever block the `let` for
them stands in, and the counters of loops are not kept at all.  So what a routine knows about a name
and where the generated code can use it are two things.  This file says where they agree.

* `Grounded` : assignments that come after a binding.
* `Routine.grounded_acts` : what a line assigns without `let` has been bound.
* `bare_assignment_follows_binding` : **a statement without `let` has a binding before it, which is
  visible until its block ends.**
* `counter_rebound_iff` : **the lines that bind the counter of a loop again.**
-/

namespace Pseudocode

open Statement Header

/-! ### Statements without `let` -/

/-- Each assignment to the name comes after a binding of it, unless the name is known. -/
def Grounded (x : List Char) (known : Prop) (acts : List Act) : Prop :=
  ∀ before after, acts = before ++ .assigns x :: after → known ∨ .binds x ∈ before

namespace Grounded

variable {x : List Char} {known known' : Prop} {acts acts' : List Act}

theorem of_notMem (h : .assigns x ∉ acts) : Grounded x known acts := by
  rintro before after rfl
  exact absurd (List.mem_append_right _ List.mem_cons_self) h

/-- What follows may take for known what is known or bound at its start. -/
theorem append (h : Grounded x known acts) (h' : Grounded x known' acts')
    (hknown : known' → known ∨ .binds x ∈ acts) : Grounded x known (acts ++ acts') := by
  intro before after heq
  obtain ⟨between, rfl, hacts'⟩ | ⟨between, hacts, heq⟩ := List.append_eq_append_iff.1 heq
  · -- the assignment stands in the second part
    obtain hk | hb := h' between after hacts'
    · exact (hknown hk).imp_right (List.mem_append_left _)
    · exact .inr (List.mem_append_right _ hb)
  · cases between with
    | nil =>
      rw [List.append_nil] at hacts
      obtain hk | hb := h' [] after heq.symm
      · exact hacts ▸ hknown hk
      · cases hb
    | cons act between =>
      obtain ⟨rfl, -⟩ := List.cons.inj heq
      exact h before between hacts

theorem cons_assigns {names : List (List Char)} {y : List Char} (hy : y ∈ names)
    (h : .assigns x ∉ acts) : Grounded x (x ∈ names) (.assigns y :: acts) := by
  by_cases hxy : x = y
  · exact fun _ _ _ => .inl (hxy ▸ hy)
  · refine .of_notMem fun hmem => ?_
    obtain heq | hmem := List.mem_cons.1 hmem
    · exact hxy (Act.assigns.inj heq)
    · exact h hmem

end Grounded

theorem grounded_emitAll (x : List Char) (ws : List Write) (names : Names) :
    Grounded x (x ∈ names.toList) ((emitAll ws names).flatMap (·.acts)) := by
  induction ws generalizing names with
  | nil => exact .of_notMem List.not_mem_nil
  | cons w ws ih =>
    cases hplain : w.isPlain with
    | false =>
      rw [emitAll_cons_of_element hplain, List.flatMap_cons]
      refine .append (.of_notMem ?_) (ih names) .inl
      simp [Emitted.acts, hplain]
    | true =>
      rw [emitAll_cons_of_plain hplain, List.flatMap_cons]
      by_cases hmem : w.target ∈ names.toList
      · rw [Names.declare_of_mem hmem]
        refine .append ?_ (ih names) .inl
        have hacts : Emitted.acts ⟨w, false⟩ = [.assigns w.target] := by simp [Emitted.acts, hplain]
        exact hacts ▸ .cons_assigns hmem List.not_mem_nil
      · rw [Names.declare_of_notMem hmem]
        refine .append (.of_notMem ?_) (ih _) ?_
        · simp [Emitted.acts, hplain]
        · simp [Emitted.acts, hplain]

theorem LineKind.grounded (x line : List Char) (names : Names) (kind : LineKind) :
    Grounded x (x ∈ names.toList) ((kind.forms line names).flatMap (·.acts)) := by
  cases kind with
  | declaration => exact .of_notMem (by simp [forms, Form.acts])
  | dimension =>
    simp only [forms]
    split
    · simpa only [List.flatMap_singleton, Form.acts] using grounded_emitAll x _ names
    · exact .of_notMem (by simp [Form.acts])
  | input =>
    simpa only [forms, List.flatMap_map, Form.acts, List.flatMap_singleton] using
      grounded_emitAll x _ names
  | assignment =>
    simp only [forms]
    split
    · simpa only [List.flatMap_singleton, Form.acts] using grounded_emitAll x _ names
    · exact .of_notMem (by simp [Form.acts])
  | countedLoop =>
    simp only [forms]
    split
    · next loop _ =>
      -- a loop without `let` is one whose counter is declared
      cases hmem : names.contains loop.counter with
      | false => exact .of_notMem (by simp [Form.acts])
      | true => exact .cons_assigns (Names.contains_iff.1 hmem) (by simp)
    · exact .of_notMem (by simp [Form.acts])
  | _ => exact .of_notMem (by simp [forms, Form.acts])

theorem SourceLine.grounded_acts (x : List Char) (l : SourceLine) (names : Names) :
    Grounded x (x ∈ names.toList) (l.acts names) := by
  unfold acts forms
  split
  · exact .of_notMem (by simp [Form.acts])
  · cases l.kind? with
    | none => exact .of_notMem (by simp [Form.acts])
    | some kind => exact kind.grounded x l.code names

namespace Routine

theorem known_or_binds {r : Routine} {l : SourceLine} {x : List Char}
    (hkept : l.isKeptDimension = true → x ∉ l.declared)
    (h : x ∈ (r.feedBody l).2.scope.names.toList) :
    x ∈ r.scope.names.toList ∨ .binds x ∈ l.acts r.scope.names := by
  rw [feedBody_names, Names.mem_declareAll_iff] at h
  by_cases hold : x ∈ r.scope.names.toList
  · exact .inl hold
  · have hdeclared := h.resolve_left hold
    have hbinds : l.isKeptDimension = false := Bool.eq_false_iff.2 fun hk => hkept hk hdeclared
    exact .inr (SourceLine.binds_mem_acts_iff.2 ⟨hdeclared, hold, hbinds⟩)

/-- **In every run, a name that a line assigns without `let` was declared at the start or has been
bound,** if no `Dimension` before the line that is kept as a comment lists it. -/
theorem grounded_acts (r : Routine) {ls : List SourceLine} {l : SourceLine} {x : List Char}
    (hkept : ∀ m ∈ ls, m.isKeptDimension = true → x ∉ m.declared) :
    Grounded x (x ∈ r.scope.names.toList)
      (r.acts ls ++ l.acts (r.feedBodies ls).2.scope.names) := by
  induction ls generalizing r with
  | nil => exact l.grounded_acts x r.scope.names
  | cons m ls ih =>
    obtain ⟨hline, hkept⟩ := List.forall_mem_cons.1 hkept
    rw [acts_cons, List.append_assoc]
    exact (m.grounded_acts x r.scope.names).append (ih _ hkept) (known_or_binds hline)

end Routine

/-- The scope of a routine whose opening binds the given names, as a function has bound its
parameters and its result.  The main routine binds none. -/
def Scope.opened (bound : List (List Char)) : Scope := ⟨(Names.empty.declareAll bound).2, []⟩

theorem Scope.mem_opened_iff {bound : List (List Char)} {x : List Char} :
    x ∈ (opened bound).names.toList ↔ x ∈ bound :=
  Names.mem_declareAll_iff.trans (or_iff_right List.not_mem_nil)

theorem FunctionPass.scope_begin (fp : FunctionPass) {l : SourceLine} {f : Header.Function}
    (h : Header.Function.ofText? l.code = some f) :
    (fp.begin l).scope = .opened (f.params ++ f.result.toList) := by
  simp only [FunctionPass.begin, h]
  rfl

/-- **A statement without `let` has a binding before it, which is visible until its block ends.**
The text of a routine is that of its code lines.  Among their acts, each assignment to a name comes
after a binding of it, and unless the block of that binding has been closed or turned since, the
name is visible.  Names are left out that a `Dimension` lists which stands before the assignment and
is kept as a comment. -/
theorem bare_assignment_follows_binding (p : Pass) (bound : List (List Char))
    (hscope : p.scope = .opened bound) (ls : List SourceLine) (l : SourceLine) :
    let here := p.feedBodies ls
    let before := bound.map .binds ++ p.routine.acts ls
    (here.writer.text =
        p.writer.text ++ render ((p.routine.codeLines ls).flatMap (·.pieces)) ∧
      (here.feedBody l).writer.text = here.writer.text ++
        render (((l.forms here.scope.names).map (CodeLine.mk here.writer.depth)).flatMap
          (·.pieces))) ∧
    ∀ x done rest, l.acts here.scope.names = done ++ .assigns x :: rest →
      (∀ m ∈ ls, m.isKeptDimension = true → x ∉ m.declared) →
      ∃ earlier since, before ++ done = earlier ++ .binds x :: since ∧
        (endsBlock 0 since = false → x ∈ visible (before ++ done)) := by
  intro here before
  refine ⟨⟨p.text_feedBodies ls, here.text_feedBody l⟩, fun x done rest hacts hkept => ?_⟩
  have hopening : Grounded x False (bound.map .binds) := .of_notMem (by simp)
  have hbody := p.routine.grounded_acts (l := l) hkept
  have hall := hopening.append hbody fun hx =>
    .inr (List.mem_map_of_mem (Scope.mem_opened_iff.1 (hscope ▸ hx)))
  rw [← p.scope_feedBodies ls, hacts, ← List.append_assoc, ← List.append_assoc] at hall
  have hbinds : .binds x ∈ before ++ done := (hall _ rest rfl).resolve_left not_false
  obtain ⟨earlier, since, heq⟩ := List.append_of_mem hbinds
  exact ⟨earlier, since, heq, fun hopen => heq ▸ mem_visible_of_binds earlier hopen⟩

/-- The parameter and the result of a function are bound at its start, and what a branch of it
binds is visible in that branch. -/
theorem bare_assignment_in_branch :
    let x := "x".toList
    let header : SourceLine :=
      ⟨1, "Funcion r <- f(a)".toList, "Funcion r <- f(a)".toList, "funcion r <- f(a)".toList⟩
    let ls := sourceLines 2 "Si a > 0 Entonces\nx <- a\nr <- 1".toList
    let l : SourceLine := ⟨5, "x <- x + 1".toList, "x <- x + 1".toList, "x <- x + 1".toList⟩
    let p := ((FunctionPass.start ⟨true⟩ .empty).begin header).toPass
    let before := [.binds "a".toList, .binds "r".toList, .opens none, .binds x,
      .assigns "r".toList]
    (p.scope = .opened ["a".toList, "r".toList] ∧
      l.acts (p.feedBodies ls).scope.names = [.assigns x] ∧
      ∀ m ∈ ls, m.isKeptDimension = true → x ∉ m.declared) ∧
    ∃ earlier since, before = earlier ++ .binds x :: since ∧
      (endsBlock 0 since = false → x ∈ visible before) := by
  intro x header ls l p before
  have hheader : Function.ofText? header.code =
      some ⟨"f".toList, ["a".toList], some "r".toList⟩ := by decide +kernel
  have hscope : p.scope = .opened ["a".toList, "r".toList] := FunctionPass.scope_begin _ hheader
  have hacts : l.acts (p.feedBodies ls).scope.names = [.assigns x] := by decide +kernel
  have hkept : ∀ m ∈ ls, m.isKeptDimension = true → x ∉ m.declared := by decide +kernel
  have hbefore : ["a".toList, "r".toList].map .binds ++ p.routine.acts ls ++ [] = before := by
    decide +kernel
  refine ⟨⟨hscope, hacts, hkept⟩, ?_⟩
  rw [← hbefore]
  exact (bare_assignment_follows_binding p _ hscope ls l).2 x [] [] hacts hkept

/-- **A name that a block has bound is taken for declared behind the block.**  The `let` stands in
the branch, and the statement behind the branch has none, so the name is not visible there. -/
theorem bare_assignment_outside_block :
    let x := "x".toList
    let p : Pass := ⟨⟨.empty, .empty, ⟨true⟩⟩, ⟨[], 1⟩⟩
    let ls := sourceLines 1 "Si c Entonces\nx <- 1\nFinSi\nx <- 2".toList
    let before := [.opens none, .binds x, .closes]
    (p.routine.acts ls = before ++ [.assigns x] ∧ x ∉ visible before) ∧
    (p.feedBodies ls).writer.text =
      "  if (c) \x7b\n    let x = 1;\n  \x7d\n  x = 2;\n".toList := by
  decide +kernel

/-! ### Counters of loops -/

namespace Routine

theorem mem_feedBodies_iff {r : Routine} {ls : List SourceLine} {x : List Char} :
    x ∈ (r.feedBodies ls).2.scope.names.toList ↔
      x ∈ r.scope.names.toList ∨ ∃ l ∈ ls, x ∈ l.declared := by
  induction ls generalizing r with
  | nil => simp [feedBodies]
  | cons l ls ih =>
    change x ∈ ((r.feedBody l).2.feedBodies ls).2.scope.names.toList ↔ _
    rw [ih, feedBody_names, Names.mem_declareAll_iff, or_assoc, List.exists_mem_cons_iff]

end Routine

section CountedLoop

variable {para : SourceLine} {loop : CountedLoop}

theorem SourceLine.declared_of_countedLoop (hkind : para.kind? = some .countedLoop) :
    para.declared = [] := by
  unfold declared
  rw [hkind]
  split <;> rfl

theorem SourceLine.acts_of_countedLoop {names : Names} (hcode : para.isComment = false)
    (hkind : para.kind? = some .countedLoop) (hloop : CountedLoop.ofText? para.code = some loop)
    (hnew : loop.counter ∉ names.toList) : para.acts names = [.opens (some loop.counter)] := by
  have hundeclared : names.contains loop.counter = false :=
    Bool.eq_false_iff.2 (Names.contains_iff.not.2 hnew)
  simp only [acts, forms, hcode, Bool.false_eq_true, if_false, hkind, LineKind.forms, hloop,
    hundeclared]
  rfl

theorem Routine.pieces_of_countedLoop (r : Routine) (hcode : para.isComment = false)
    (hkind : para.kind? = some .countedLoop) (hloop : CountedLoop.ofText? para.code = some loop) :
    (r.feedBody para).1.pieces = [.line r.depth (loop.code r.scope.names)] := by
  simp only [feedBody, hcode, Bool.false_eq_true, if_false, feed, convertLine, hkind, feedKind,
    countedLoop?, hloop, Option.map_some]
  rfl

theorem Pass.text_of_countedLoop (p : Pass) (hcode : para.isComment = false)
    (hkind : para.kind? = some .countedLoop) (hloop : CountedLoop.ofText? para.code = some loop) :
    (p.feedBody para).writer.text =
      p.writer.text ++ (Piece.line p.writer.depth (loop.code p.scope.names)).text := by
  rw [feedBody_eq, text_after, Routine.pieces_of_countedLoop p.routine hcode hkind hloop,
    render_cons, render_nil, List.append_nil]
  rfl

/-- **A line inside a loop binds the counter again exactly if it is the first one to declare it.**
The loop introduces its counter and does not declare it.  While the block of the loop is open the
counter is visible, and a line that declares it writes `let` for it, unless that is a `Dimension`
which is kept as a comment or a line before it in the loop has declared the counter. -/
theorem counter_rebound_iff (p : Pass) (hcode : para.isComment = false)
    (hkind : para.kind? = some .countedLoop) (hloop : CountedLoop.ofText? para.code = some loop)
    (hlet : "for (let ".toList ++ loop.counter ++ " =".toList <+: loop.code p.scope.names)
    (inside : List SourceLine) (l : SourceLine) :
    let v := loop.counter
    let here := p.feedBodies (para :: inside)
    ((p.feedBody para).writer.text =
        p.writer.text ++ (Piece.line p.writer.depth (loop.code p.scope.names)).text ∧
      (here.feedBody l).writer.text = here.writer.text ++
        render (((l.forms here.scope.names).map (CodeLine.mk here.writer.depth)).flatMap
          (·.pieces))) ∧
    (endsBlock 0 ((p.feedBody para).routine.acts inside) = false →
      v ∈ visible (p.routine.acts (para :: inside))) ∧
    (.binds v ∈ l.acts here.scope.names ↔
      v ∈ l.declared ∧ l.isKeptDimension = false ∧ ∀ m ∈ inside, v ∉ m.declared) := by
  intro v here
  have hnew : v ∉ p.routine.scope.names.toList := (loop.let_isPrefix_code_iff p.scope.names).1 hlet
  -- the loop itself declares nothing, so only lines inside it make its counter a declared name
  have hknown : v ∈ here.scope.names.toList ↔ ∃ m ∈ inside, v ∈ m.declared := by
    rw [p.scope_feedBodies, Routine.mem_feedBodies_iff, or_iff_right hnew, List.exists_mem_cons_iff,
      SourceLine.declared_of_countedLoop hkind, or_iff_right List.not_mem_nil]
  refine ⟨⟨p.text_of_countedLoop hcode hkind hloop, here.text_feedBody l⟩, fun hopen => ?_, ?_⟩
  · rw [Pass.feedBody_eq, Pass.routine_after] at hopen
    rw [Routine.acts_cons, SourceLine.acts_of_countedLoop hcode hkind hloop hnew]
    exact mem_visible_of_opens [] hopen
  · rw [SourceLine.binds_mem_acts_iff, hknown, and_comm (a := ¬ _)]
    simp only [not_exists, not_and]

end CountedLoop

/-- The counter is bound again by an assignment, although other lines of the loop come before it. -/
theorem counter_rebound_in_branch :
    let text := "Para i <- 1 Hasta n Hacer".toList
    let para : SourceLine := ⟨1, text, text, Text.lower text⟩
    let loop : CountedLoop := ⟨"i".toList, "1".toList, "n".toList, none⟩
    let p : Pass := ⟨⟨.empty, .empty, ⟨true⟩⟩, ⟨[], 1⟩⟩
    let inside := sourceLines 2 "Leer v[i], j\nSi j > i Entonces".toList
    let code := "i <- j".toList
    let l : SourceLine := ⟨4, code, code, code⟩
    let here := p.feedBodies (para :: inside)
    (para.isComment = false ∧ para.kind? = some .countedLoop ∧
      CountedLoop.ofText? para.code = some loop ∧
      "for (let ".toList ++ loop.counter ++ " =".toList <+: loop.code p.scope.names) ∧
    loop.counter ∈ visible (p.routine.acts (para :: inside)) ∧
    (.binds loop.counter ∈ l.acts here.scope.names ↔ loop.counter ∈ l.declared ∧
      l.isKeptDimension = false ∧ ∀ m ∈ inside, loop.counter ∉ m.declared) := by
  intro text para loop p inside code l here
  have hcode : para.isComment = false := by decide +kernel
  have hkind : para.kind? = some .countedLoop := by decide +kernel
  have hloop : CountedLoop.ofText? para.code = some loop := by decide +kernel
  have hlet : "for (let ".toList ++ loop.counter ++ " =".toList <+: loop.code p.scope.names := by
    decide +kernel
  have hopen : endsBlock 0 ((p.feedBody para).routine.acts inside) = false := by decide +kernel
  obtain ⟨-, hvisible, hiff⟩ := counter_rebound_iff p hcode hkind hloop hlet inside l
  exact ⟨⟨hcode, hkind, hloop, hlet⟩, hvisible hopen, hiff⟩

/-- **The counter of a loop is shadowed in its own loop.**  The loop introduces its counter with
`let`, and the assignment inside it does so again. -/
theorem counter_shadowed_in_loop :
    let i := "i".toList
    let p : Pass := ⟨⟨.empty, .empty, ⟨true⟩⟩, ⟨[], 1⟩⟩
    let ls := sourceLines 1 "Para i <- 1 Hasta 3 Hacer\ni <- i + 1".toList
    (p.routine.acts ls = [.opens (some i), .binds i] ∧ i ∈ visible [.opens (some i)]) ∧
    (p.feedBodies ls).writer.text =
      "  for (let i = 1; i <= 3; i += 1) \x7b\n    let i = i + 1;\n".toList := by
  decide +kernel

end Pseudocode
