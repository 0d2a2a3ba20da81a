import Pseudocode.Proofs.Nesting.Moves
import Pseudocode.Proofs.Nesting.Program

/-!
# Branches of conditionals

A `Sino` looks at the innermost open block only, and leaves it open.  So in a routine without faults
each `} else {` belongs to an `if`, but the block of a `Si` that has had its `Sino` looks like one
that has had none, and a second `Sino` is taken like the first.

* `Routine.elseCode_mem_iff` : `} else {` is written where a line turns, and nowhere else.
* `TwoElses`, `TwoSinos` : an `if` with two other branches, and a `Si` with two `Sino`.
* `Pass.ElsesMatch`, `elses_match` : **each `} else {` belongs to an `if`, which has two of them
  exactly if its `Si` has two `Sino`.**
-/

namespace Pseudocode

/-! ### The text of other branches -/

section ElseText

open Statement

variable {code text : List Char} {d depth : Nat}

/-- The text that starts another branch. -/
def elseCode : List Char := "\x7d else \x7b".toList

theorem ne_elseCode_of_head? {a : Char} (h : code.head? = some a) (ha : a ≠ '\x7d') :
    code ≠ elseCode := by
  rintro rfl
  exact ha (Option.some.inj h).symm

theorem ne_elseCode_of_getLast? (h : code.getLast? = some ';') : code ≠ elseCode := by
  rintro rfl
  cases h

theorem eq_of_mem_statement (h : .line d code ∈ (Routine.start depth).statement text) :
    text = code := by
  unfold Routine.statement at h
  split at h
  · rename_i hempty
    cases List.mem_singleton.1 h
    exact List.isEmpty_iff.1 hempty
  · cases List.mem_singleton.1 h
    rfl

theorem getLast?_join {sep : List Char} {a : Char} {ss : List (List Char)}
    (h : ∀ s ∈ ss, s.getLast? = some a) (hne : ss ≠ []) :
    (Text.join sep ss).getLast? = some a := by
  induction ss with
  | nil => exact absurd rfl hne
  | cons s ss ih =>
    obtain ⟨hs, hss⟩ := List.forall_mem_cons.1 h
    cases ss with
    | nil => exact hs
    | cons t ss =>
      change (s ++ sep ++ Text.join sep (t :: ss)).getLast? = some a
      rw [List.getLast?_append, ih hss (List.cons_ne_nil t ss)]
      rfl

theorem getLast?_code_of_mem_emitAll {ws : List Write} {names : Names} {e : Emitted}
    (hws : ∀ w ∈ ws, w.rest.getLast? = some ';') (h : e ∈ emitAll ws names) :
    e.code.getLast? = some ';' := by
  rw [Emitted.code, List.getLast?_append, hws _ (write_mem_of_mem_emitAll h)]
  rfl

/-- Statements end with a semicolon, and none of them is the start of another branch. -/
theorem join_ne_elseCode {statements : List Emitted}
    (h : ∀ e ∈ statements, e.code.getLast? = some ';') :
    Text.join " ".toList (statements.map (·.code)) ≠ elseCode := by
  cases statements with
  | nil => exact fun h => by cases h
  | cons e statements =>
    exact ne_elseCode_of_getLast? (getLast?_join (List.forall_mem_map.2 h) (by simp))

theorem getLast?_semicolon (s : List Char) : (s ++ ";".toList).getLast? = some ';' :=
  List.getLast?_concat

theorem inputWrite_getLast? (target : List Char) :
    (inputWrite target).rest.getLast? = some ';' := by
  unfold inputWrite
  split <;> rw [List.getLast?_append] <;> rfl

theorem LineKind.eq_turns_of_mem {kind : LineKind} {line : List Char} {names : Names} {f : Form}
    (hf : f ∈ kind.forms line names) (h : .line d elseCode ∈ (CodeLine.mk depth f).pieces) :
    f = .turns := by
  have hcomment : ∀ s, "// ".toList ++ s ≠ elseCode := fun s =>
    ne_elseCode_of_head? rfl (by decide)
  have hwrites : ∀ {ws : List Write}, (∀ w ∈ ws, w.rest.getLast? = some ';') →
      .line d elseCode ∉ (CodeLine.mk depth (.writes (emitAll ws names))).pieces := fun hws hmem =>
    join_ne_elseCode (fun e => getLast?_code_of_mem_emitAll hws) (eq_of_mem_statement hmem)
  cases kind with
  | otherwise => exact List.mem_singleton.1 hf
  | declaration =>
    obtain rfl := List.mem_singleton.1 hf
    have htext := eq_of_mem_statement h
    split at htext
    · cases htext
    · exact absurd htext (ne_elseCode_of_head? rfl (by decide))
  | dimension =>
    simp only [LineKind.forms] at hf
    split at hf <;> obtain rfl := List.mem_singleton.1 hf
    · refine absurd h (hwrites (List.forall_mem_map.2 fun a _ => ?_))
      exact getLast?_semicolon _
    · exact absurd (eq_of_mem_statement h) (hcomment _)
  | input =>
    obtain ⟨e, he, rfl⟩ := List.mem_map.1 hf
    have hlast := getLast?_code_of_mem_emitAll
      (List.forall_mem_map.2 fun target _ => inputWrite_getLast? target) he
    exact absurd (eq_of_mem_statement h) (ne_elseCode_of_getLast? hlast)
  | assignment =>
    simp only [LineKind.forms] at hf
    split at hf <;> obtain rfl := List.mem_singleton.1 hf
    · refine absurd h (hwrites (List.forall_mem_singleton.2 ?_))
      exact getLast?_semicolon _
    · exact absurd (eq_of_mem_statement h) (hcomment _)
  | output =>
    obtain rfl := List.mem_singleton.1 hf
    exact absurd (eq_of_mem_statement h) (ne_elseCode_of_head? rfl (by decide))
  | call =>
    obtain rfl := List.mem_singleton.1 hf
    exact absurd (eq_of_mem_statement h) (ne_elseCode_of_getLast? (getLast?_semicolon _))
  | countedLoop =>
    simp only [LineKind.forms] at hf
    split at hf <;> obtain rfl := List.mem_singleton.1 hf
    · cases List.mem_singleton.1 h
    · obtain hfirst | hsecond := List.mem_cons.1 h
      · cases hfirst
      · cases List.mem_singleton.1 hsecond
  | branch | whileLoop | repeatLoop | endBranch | endWhile | endCounted | untilLoop =>
    obtain rfl := List.mem_singleton.1 hf
    cases List.mem_singleton.1 h

theorem SourceLine.eq_turns_of_mem {l : SourceLine} {names : Names} {f : Form}
    (hf : f ∈ l.forms names) (h : .line d elseCode ∈ (CodeLine.mk depth f).pieces) :
    f = .turns := by
  unfold SourceLine.forms at hf
  split at hf
  · rename_i hcomment
    obtain rfl := List.mem_singleton.1 hf
    obtain ⟨rest, htext⟩ := List.isPrefixOf_iff_prefix.1 hcomment
    have hslash : l.text ≠ elseCode := by
      rw [← htext]
      exact ne_elseCode_of_head? rfl (by decide)
    exact absurd (Piece.line.inj (List.mem_singleton.1 h)).2.symm hslash
  · split at hf
    · exact LineKind.eq_turns_of_mem hf h
    · obtain rfl := List.mem_singleton.1 hf
      exact absurd (eq_of_mem_statement h) (ne_elseCode_of_head? rfl (by decide))

/-- `} else {` is written where a line turns, and nowhere else. -/
theorem Routine.elseCode_mem_iff {r : Routine} {ls : List SourceLine} {c : CodeLine}
    (hc : c ∈ r.codeLines ls) : (∃ d, .line d elseCode ∈ c.pieces) ↔ c.form = .turns := by
  constructor
  · rintro ⟨d, h⟩
    induction ls generalizing r with
    | nil => cases hc
    | cons l ls ih =>
      obtain hline | hrest := List.mem_append.1 hc
      · obtain ⟨f, hf, rfl⟩ := List.mem_map.1 hline
        exact SourceLine.eq_turns_of_mem hf h
      · exact ih hrest
  · intro hform
    refine ⟨c.depth - 1, ?_⟩
    rw [CodeLine.pieces, hform]
    exact List.mem_singleton_self _

end ElseText

/-! ### Two branches too many -/

/-- An `if` of the code has two other branches: the lines of its block up to the second one close
the blocks they open. -/
def TwoElses (lines : List CodeLine) : Prop :=
  ∃ (before : List CodeLine) (header : CodeLine) (first : List CodeLine) (turn : CodeLine)
      (second : List CodeLine) (turn' : CodeLine) (after : List CodeLine),
    lines = before ++ header :: (first ++ turn :: (second ++ turn' :: after)) ∧
    (∃ line, header.form = .opens [Header.branch line]) ∧
    WholeBlocks (first.map (·.move)) ∧ turn.form = .turns ∧
    WholeBlocks (second.map (·.move)) ∧ turn'.form = .turns

/-- The block of a `Si` has two `Sino`: the lines of the block up to the second one close the blocks
they open. -/
def TwoSinos (ls : List SourceLine) : Prop :=
  ∃ (before : List SourceLine) (si : SourceLine) (first : List SourceLine) (sino : SourceLine)
      (second : List SourceLine) (sino' : SourceLine) (after : List SourceLine),
    ls = before ++ si :: (first ++ sino :: (second ++ sino' :: after)) ∧ si.IsOf .branch ∧
    WholeBlocks (first.map (·.move)) ∧ sino.IsOf .otherwise ∧
    WholeBlocks (second.map (·.move)) ∧ sino'.IsOf .otherwise

namespace Routine

variable {r : Routine} {ls : List SourceLine}

theorem exists_of_turns {before after : List CodeLine} {c : CodeLine}
    (h : r.codeLines ls = before ++ c :: after) (hc : c.form = .turns) :
    ∃ ahead sino behind, ls = ahead ++ sino :: behind ∧ r.codeLines ahead = before ∧
      sino.IsOf .otherwise ∧ ((r.feedBodies ahead).2.feedBody sino).2.codeLines behind = after := by
  have hmove : c.move = .turns := by rw [CodeLine.move, hc]
  obtain ⟨ahead, sino, behind, hls, hahead, hsino, -, hbehind⟩ :=
    r.exists_of_codeLines h (by rw [hmove]; decide)
  exact ⟨ahead, sino, behind, hls, hahead, SourceLine.isOf_otherwise (hsino.trans hmove), hbehind⟩

theorem twoSinos_of_twoElses (h : TwoElses (r.codeLines ls)) : TwoSinos ls := by
  obtain ⟨before, header, first, turn, second, turn', after, hlines, ⟨line, hheader⟩, hfirst, hturn,
    hsecond, hturn'⟩ := h
  have hmove : header.move = .opens := by rw [CodeLine.move, hheader]
  obtain ⟨outer, si, rest, rfl, -, hopens, hsi, hrest⟩ :=
    r.exists_of_codeLines hlines (by rw [hmove]; decide)
  rw [hheader] at hsi
  obtain ⟨inside, sino, rest, rfl, rfl, hsino, hrest⟩ := exists_of_turns hrest hturn
  obtain ⟨between, sino', rest, rfl, rfl, hsino', -⟩ := exists_of_turns hrest hturn'
  have hbranch : si.IsOf .branch := SourceLine.isOf_branch (hopens.trans hmove) hsi
  exact ⟨outer, si, inside, sino, between, sino', rest, rfl, hbranch,
    (codeLines_moves _).1 hfirst, hsino, (codeLines_moves _).1 hsecond, hsino'⟩

theorem codeLines_cons_of_isOf {l : SourceLine} {kind : LineKind} {f : Form} (hl : l.IsOf kind)
    (hf : ∀ names, kind.forms l.code names = [f]) (r : Routine) (ls : List SourceLine) :
    r.codeLines (l :: ls) = ⟨r.depth, f⟩ :: (r.feedBody l).2.codeLines ls := by
  rw [codeLines, hl.forms, hf]
  rfl

theorem twoElses_of_twoSinos (h : TwoSinos ls) : TwoElses (r.codeLines ls) := by
  obtain ⟨before, si, first, sino, second, sino', after, rfl, hsi, hfirst, hsino, hsecond,
    hsino'⟩ := h
  rw [codeLines_append, codeLines_cons_of_isOf hsi fun _ => rfl, codeLines_append,
    codeLines_cons_of_isOf hsino fun _ => rfl, codeLines_append,
    codeLines_cons_of_isOf hsino' fun _ => rfl]
  exact ⟨_, _, _, _, _, _, _, rfl, ⟨si.code, rfl⟩, (codeLines_moves _).2 hfirst, rfl,
    (codeLines_moves _).2 hsecond, rfl⟩

theorem exists_top?_of_otherwise {sino : SourceLine} (hsino : sino.IsOf .otherwise)
    (h : (r.feedBody sino).1.faults = []) : ∃ b, r.scope.top? = some b ∧ b.kind = .branch := by
  have hevent : sino.event = .otherwise := hsino.event
  rw [feedBody, hsino.1, if_neg Bool.false_ne_true, feed_faults, hevent] at h
  have hfault : BlockEvent.otherwise.fault? r.scope.top? = none := by
    cases hfault : BlockEvent.otherwise.fault? r.scope.top? with
    | none => rfl
    | some cause =>
      rw [hfault] at h
      cases h
  have hfits := BlockEvent.fault?_eq_none_iff.1 hfault
  obtain ⟨b, hb, hkind⟩ : ∃ b, r.scope.blocks.head? = some b ∧ b.kind = .branch := by
    simpa [BlockEvent.Fits] using hfits
  exact ⟨b, hb, hkind⟩

theorem faults_feedBody_of_feedBodies {ahead behind : List SourceLine} {l : SourceLine}
    (h : (r.feedBodies (ahead ++ l :: behind)).1.faults = []) :
    ((r.feedBodies ahead).2.feedBody l).1.faults = [] := by
  induction ahead generalizing r with
  | nil =>
    simp only [List.nil_append, feedBodies, Written.faults_append, List.append_eq_nil_iff] at h
    exact h.1
  | cons m ahead ih =>
    simp only [List.cons_append, feedBodies, Written.faults_append, List.append_eq_nil_iff] at h
    exact ih h.2

end Routine

namespace Pass

variable {p : Pass} {ls : List SourceLine}

/-- Where the `} else {` of a routine belong. -/
structure ElsesMatch (p : Pass) (ls : List SourceLine) : Prop where
  /-- The text of the routine is that of its lines. -/
  text : (p.feedBodies ls).writer.text =
    p.writer.text ++ render ((p.routine.codeLines ls).flatMap (·.pieces))
  /-- Only a line that turns is written as `} else {`. -/
  elses : ∀ c ∈ p.routine.codeLines ls, (∃ d, .line d elseCode ∈ c.pieces) ↔ c.form = .turns
  /-- Such a line is written for a `Sino`, and its `if` for the `Si` that is the innermost open
  block there; between the two all blocks are whole. -/
  belongs : ∀ (before : List CodeLine) (c : CodeLine) (after : List CodeLine),
    p.routine.codeLines ls = before ++ c :: after → c.form = .turns →
    ∃ (outer : List SourceLine) (si : SourceLine) (inside : List SourceLine) (sino : SourceLine)
        (behind : List SourceLine), ls = outer ++ si :: (inside ++ sino :: behind) ∧
      si.IsOf .branch ∧ sino.IsOf .otherwise ∧
      (p.feedBodies (outer ++ si :: inside)).scope.top? = some ⟨.branch, si.num⟩ ∧
      ∃ (header : CodeLine) (first : List CodeLine),
        before = p.routine.codeLines outer ++ header :: first ∧
        header.form = .opens [Header.branch si.code] ∧ WholeBlocks (first.map (·.move))
  /-- An `if` has two of them exactly if the block of its `Si` has two `Sino`. -/
  twice : TwoElses (p.routine.codeLines ls) ↔ TwoSinos ls

/-- In a strict pass, lines without faults are lines that add no error. -/
theorem errors_feedBodies_eq_iff :
    (feedBodies { p with opts := ⟨true⟩ } ls).diag.errors = p.diag.errors ↔
      (p.routine.feedBodies ls).1.faults = [] := by
  rw [feedBodies_eq, diag_after]
  simp only [Diagnostics.reportAll, List.append_right_eq_self, List.map_eq_nil_iff, Written.faults]
  rfl

theorem elsesMatch (hstart : p.scope.blocks = [])
    (hfaults : (p.routine.feedBodies ls).1.faults = []) : p.ElsesMatch ls where
  text := p.text_feedBodies ls
  elses c := Routine.elseCode_mem_iff
  belongs before c after hlines hc := by
    obtain ⟨ahead, sino, behind, rfl, rfl, hsino, -⟩ := Routine.exists_of_turns hlines hc
    obtain ⟨b, htop, hkind⟩ := Routine.exists_top?_of_otherwise hsino
      (Routine.faults_feedBody_of_feedBodies hfaults)
    have hopened : Routine.Opened (p.routine.feedBodies ahead).2.scope.blocks ([] ++ ahead) := by
      refine Routine.Opened.feedBodies ?_ ahead
      change Routine.Opened p.scope.blocks []
      rw [hstart]
      trivial
    obtain ⟨blocks, hblocks⟩ := List.head?_eq_some_iff.1 htop
    rw [hblocks] at hopened
    obtain ⟨outer, si, inside, hahead, hsi, hinside, -⟩ := hopened
    obtain rfl : ahead = outer ++ si :: inside := hahead
    obtain ⟨hbranch, rfl⟩ := SourceLine.isOf_branch_of_opened? hsi hkind
    refine ⟨outer, si, inside, sino, behind, by simp, hbranch, hsino, ?_, ?_⟩
    · rw [scope_feedBodies]
      exact htop
    · rw [Routine.codeLines_append, Routine.codeLines_cons_of_isOf hbranch fun _ => rfl]
      exact ⟨_, _, rfl, rfl, (Routine.codeLines_moves _).2 hinside⟩
  twice := ⟨Routine.twoSinos_of_twoElses, Routine.twoElses_of_twoSinos⟩

end Pass

/-! ### Programs -/

theorem functionRuns_append {body : List SourceLine}
    (h : ∀ l ∈ body, l.isFunctionStart = false) (ls : List SourceLine) :
    functionRuns (body ++ ls) = functionRuns ls := by
  induction body with
  | nil => rfl
  | cons l body ih =>
    obtain ⟨hl, hbody⟩ := List.forall_mem_cons.1 h
    rw [List.cons_append, functionRuns, hl, if_neg Bool.false_ne_true, ih hbody]

theorem WellNestedFunctions.runs {ls : List SourceLine} (h : WellNestedFunctions ls) :
    ∀ run ∈ functionRuns ls, WellNested none (blockEvents run.lines) := by
  induction h with
  | nil => exact List.forall_mem_nil _
  | outside hstart hend hrest ih =>
    rwa [functionRuns, hstart, if_neg Bool.false_ne_true]
  | @function header ending body ls hheader hbody hnested hending hrest ih =>
    have hinner : ∀ l ∈ body, l.isInner = true := fun l hl => by
      simp [SourceLine.isInner, hbody l hl]
    have hlast : ending.isInner = false := by simp [SourceLine.isInner, hending]
    have hlines : (body ++ ending :: ls).takeWhile (·.isInner) = body := by
      rw [List.takeWhile_append_of_pos hinner, List.takeWhile_cons_of_neg (by simp [hlast]),
        List.append_nil]
    have hrest : functionRuns (body ++ ending :: ls) = functionRuns ls := by
      rw [functionRuns_append fun l hl => (hbody l hl).1, functionRuns,
        SourceLine.isFunctionStart_eq_false_of_isFunctionEnd hending, if_neg Bool.false_ne_true]
    rw [functionRuns, hheader, if_pos rfl, hrest, hlines]
    exact List.forall_mem_cons.2 ⟨hnested, ih⟩

theorem Program.runs_faultless {p : Program} (h : p.convert.faults = []) :
    ∀ run ∈ p.runs, (run.start.feedBodies run.lines).1.faults = [] := by
  obtain ⟨-, hmain, hfunctions⟩ := p.convert_faultless_iff.1 h
  have hnested : ∀ run ∈ p.runs, WellNested none (blockEvents run.lines) :=
    List.forall_mem_append.2 ⟨hfunctions.runs, List.forall_mem_map.2 hmain⟩
  intro run hrun
  have hkinds : run.start.kinds = [] := Routine.kinds_eq_nil_iff.2 (p.runs_blocks run hrun)
  refine (Routine.feedBodies_faultless_iff run.start run.lines).2 ?_ |>.1
  rw [hkinds]
  exact accepts_nil_iff.2 (hnested run hrun)

/-- **Each `} else {` belongs to an `if`.**  In a routine that adds no error to a strict conversion,
and in each routine of a program without faults, a `} else {` is written for a `Sino` and belongs to
the `if` of the `Si` that is the innermost open block.  An `if` has two of them exactly if its `Si`
has two `Sino`. -/
theorem elses_match (p : Pass) (ls : List SourceLine)
    (h : (p.scope.blocks = [] ∧
        (Pass.feedBodies { p with opts := ⟨true⟩ } ls).diag.errors = p.diag.errors) ∨
      ∃ q : Program, q.convert.faults = [] ∧ ⟨p.routine, ls⟩ ∈ q.runs) : p.ElsesMatch ls := by
  obtain ⟨hstart, herrors⟩ | ⟨q, hq, hrun⟩ := h
  · exact Pass.elsesMatch hstart (Pass.errors_feedBodies_eq_iff.1 herrors)
  · exact Pass.elsesMatch (q.runs_blocks _ hrun) (Program.runs_faultless hq _ hrun)

/-- A loop and a conditional with branches of its own stand between a `Si` and its `Sino`, and the
block of another `Si` is left open. -/
theorem elses_match_in_branches :
    let p : Pass := ⟨⟨.empty, .empty, ⟨false⟩⟩, ⟨[], 1⟩⟩
    let ls := sourceLines 1 ("Si a Entonces\nMientras b Hacer\nFinMientras\n// c\n" ++
      "Si c Entonces\nSino\nFinSi\nSino\nLeer d, e\nFinSi\nSi f Entonces").toList
    (p.scope.blocks = [] ∧
      (Pass.feedBodies { p with opts := ⟨true⟩ } ls).diag.errors = p.diag.errors) ∧
      p.ElsesMatch ls := by
  intro p ls
  have herrors : (Pass.feedBodies { p with opts := ⟨true⟩ } ls).diag.errors = p.diag.errors := by
    decide +kernel
  exact ⟨⟨rfl, herrors⟩, elses_match p ls (.inl ⟨rfl, herrors⟩)⟩

/-- **A second `Sino` goes unnoticed.**  The conversion succeeds in strict mode and has nothing to
report, and the code has two other branches for one `if`. -/
theorem if_with_two_elses :
    let src := "Algoritmo A\nSi a Entonces\nSino\nSino\nFinSi\nFinAlgoritmo"
    let ls := sourceLines 2 "Si a Entonces\nSino\nSino\nFinSi".toList
    let p : Pass := ⟨⟨.empty, .empty, ⟨true⟩⟩, ⟨[], 1⟩⟩
    ((convert true src).success = true ∧ (convert true src).details = []) ∧
    (Program.ofLines? (sourceLines 1 src.toList)).map (·.runs.map (·.lines)) = some [ls] ∧
    TwoElses (p.routine.codeLines ls) ∧
    (p.feedBodies ls).writer.text =
      "  if (a) \x7b\n  \x7d else \x7b\n  \x7d else \x7b\n  \x7d\n".toList := by
  refine ⟨by decide +kernel, by decide +kernel, ?_, by decide +kernel⟩
  exact ⟨[], ⟨1, .opens [Header.branch "Si a Entonces".toList]⟩, [], ⟨2, .turns⟩, [], ⟨2, .turns⟩,
    [⟨2, .closes "\x7d".toList⟩], by decide +kernel, ⟨_, rfl⟩, rfl, rfl, rfl, rfl⟩

end Pseudocode
