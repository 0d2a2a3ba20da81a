import Mathlib.Data.List.Nodup
import Pseudocode.Proofs.Pass.Convert
import Pseudocode.Proofs.Diagnostic
import Pseudocode.Proofs.Program.Runs
import Pseudocode.Proofs.Routine.Step

/-!
# The account of blocks

Every block that a line opens leaves the stack of its routine once: a later line of the routine
takes it off, or it is still there at the end and is reported.  The account is kept for one block
at a time, by counting how often it stands on the stack.

* `Routine.feedBody_count`, `Routine.feedBodies_count` : the stack after a line and after a body
  holds what it held before and what was opened, less what was taken off.
* `Run.leftOpen_descending` : the blocks that are left open are reported innermost first.
* `convert_accounts_for_blocks` : **no block is lost and none is counted twice.**
-/

namespace Pseudocode

/-- The block that a line of a routine opens, if it opens one. -/
def SourceLine.opened? (l : SourceLine) : Option OpenBlock :=
  if l.isComment then none
  else match l.event with
    | .opens kind => some ⟨kind, l.num⟩
    | _ => none

namespace Routine

/-- The line takes the block off the stack of the routine. -/
def Removes (r : Routine) (l : SourceLine) (b : OpenBlock) : Prop :=
  r.scope.blocks = b :: (r.feedBody l).2.scope.blocks

instance (r : Routine) (l : SourceLine) (b : OpenBlock) : Decidable (r.Removes l b) :=
  inferInstanceAs (Decidable (_ = _))

/-- The lines that take the block off the stack, in a run over the given lines. -/
def closersOf (b : OpenBlock) (r : Routine) : List SourceLine → List SourceLine
  | [] => []
  | l :: ls => (if r.Removes l b then [l] else []) ++ closersOf b (r.feedBody l).2 ls

/-! ### One line -/

/-- What a line of a body does to the stack: it opens a block, takes the innermost one off, or
leaves the stack as it is. -/
theorem feedBody_blocks_cases (r : Routine) (l : SourceLine) :
    (∃ b, l.opened? = some b ∧ (r.feedBody l).2.scope.blocks = b :: r.scope.blocks) ∨
    l.opened? = none ∧ ((∃ kind, l.event = .closes kind) ∧
      (r.feedBody l).2.scope.blocks = r.scope.blocks.tail ∨
      (r.feedBody l).2.scope.blocks = r.scope.blocks) := by
  unfold feedBody SourceLine.opened?
  split
  · exact .inr ⟨rfl, .inr rfl⟩
  · rw [feed_blocks]
    cases hevent : l.event with
    | opens kind => exact .inl ⟨_, rfl, rfl⟩
    | closes kind => exact .inr ⟨rfl, .inl ⟨⟨kind, rfl⟩, rfl⟩⟩
    | other | otherwise => exact .inr ⟨rfl, .inr rfl⟩

theorem removes_iff {r : Routine} {l : SourceLine} {b : OpenBlock} :
    r.Removes l b ↔ (r.feedBody l).2.scope.blocks = r.scope.blocks.tail ∧
      r.scope.blocks.head? = some b := by
  unfold Removes
  cases r.scope.blocks with
  | nil => simp
  | cons top rest => simp [eq_comm, and_comm]

theorem Removes.closes {r : Routine} {l : SourceLine} {b : OpenBlock} (h : r.Removes l b) :
    ∃ kind, l.event = .closes kind := by
  have hlength := congrArg List.length h
  obtain ⟨b', -, hblocks⟩ | ⟨-, ⟨hcloses, -⟩ | hblocks⟩ := r.feedBody_blocks_cases l
  · rw [hblocks] at hlength
    simp at hlength
    omega
  · exact hcloses
  · rw [hblocks] at hlength
    simp at hlength

/-- **The account of a line:** how often a block stands on the stack changes by its being opened or
taken off. -/
theorem feedBody_count (b : OpenBlock) (r : Routine) (l : SourceLine) :
    (r.feedBody l).2.scope.blocks.count b + (if r.Removes l b then [l] else []).length =
      r.scope.blocks.count b + [l].countP (·.opened? = some b) := by
  simp only [removes_iff]
  obtain ⟨b', hopened, hblocks⟩ | ⟨hopened, ⟨-, hblocks⟩ | hblocks⟩ := r.feedBody_blocks_cases l
  · have hgrown : b' :: r.scope.blocks ≠ r.scope.blocks.tail := fun h => by
      have hlength := congrArg List.length h
      simp at hlength
      omega
    simp [hblocks, hopened, hgrown, List.count_cons]
  · cases hs : r.scope.blocks with
    | nil => simp [hblocks, hs, hopened]
    | cons top rest =>
      by_cases htop : top = b <;> simp [hblocks, hs, hopened, htop]
  · cases hs : r.scope.blocks with
    | nil => simp [hblocks, hs, hopened]
    | cons top rest => simp [hblocks, hs, hopened]

/-! ### Whole bodies -/

/-- **The account of a body.** -/
theorem feedBodies_count (b : OpenBlock) (r : Routine) (ls : List SourceLine) :
    (r.feedBodies ls).2.scope.blocks.count b + (r.closersOf b ls).length =
      r.scope.blocks.count b + ls.countP (·.opened? = some b) := by
  induction ls generalizing r with
  | nil => rfl
  | cons l ls ih =>
    have hline := r.feedBody_count b l
    have hrest := ih (r.feedBody l).2
    have hopened : (l :: ls).countP (·.opened? = some b) =
        [l].countP (·.opened? = some b) + ls.countP (·.opened? = some b) := by
      rw [← List.countP_append, List.singleton_append]
    rw [closersOf, List.length_append, hopened]
    simp only [feedBodies]
    omega

/-- The open blocks were opened by lines before the given ones, inner blocks after outer ones. -/
structure Precedes (r : Routine) (ls : List SourceLine) : Prop where
  descending : r.scope.blocks.Pairwise fun inner outer => outer.line < inner.line
  line_lt : ∀ b ∈ r.scope.blocks, ∀ l ∈ ls, b.line < l.num

theorem line_of_opened? {l : SourceLine} {b : OpenBlock} (h : l.opened? = some b) :
    b.line = l.num := by
  unfold SourceLine.opened? at h
  split at h
  · cases h
  · split at h
    · cases h
      rfl
    · cases h

theorem Precedes.feedBody {r : Routine} {l : SourceLine} {ls : List SourceLine}
    (h : r.Precedes (l :: ls)) (hls : SourceLine.Ascending (l :: ls)) :
    (r.feedBody l).2.Precedes ls := by
  have hline : ∀ l' ∈ ls, l.num < l'.num := (List.pairwise_cons.1 hls).1
  have hlater : ∀ b ∈ r.scope.blocks, ∀ l' ∈ ls, b.line < l'.num := fun b hb l' hl' =>
    h.line_lt b hb l' (List.mem_cons_of_mem l hl')
  obtain ⟨b, hopened, hblocks⟩ | ⟨-, ⟨-, hblocks⟩ | hblocks⟩ := r.feedBody_blocks_cases l
  · have hb := line_of_opened? hopened
    refine ⟨?_, ?_⟩ <;> rw [hblocks]
    · refine h.descending.cons fun outer houter => ?_
      rw [hb]
      exact h.line_lt outer houter l List.mem_cons_self
    · refine List.forall_mem_cons.2 ⟨fun l' hl' => ?_, hlater⟩
      rw [hb]
      exact hline l' hl'
  · refine ⟨?_, ?_⟩ <;> rw [hblocks]
    · exact h.descending.tail
    · exact fun b hb => hlater b (List.mem_of_mem_tail hb)
  · refine ⟨?_, ?_⟩ <;> rw [hblocks]
    · exact h.descending
    · exact hlater

theorem Precedes.feedBodies {r : Routine} {ls : List SourceLine} (h : r.Precedes ls)
    (hls : SourceLine.Ascending ls) : (r.feedBodies ls).2.Precedes [] := by
  induction ls generalizing r with
  | nil => exact h
  | cons l ls ih => exact ih (h.feedBody hls) (List.pairwise_cons.1 hls).2

/-- A block is taken off by terminators among the lines, and only after it was opened. -/
theorem Precedes.of_mem_closersOf {r : Routine} {ls : List SourceLine} (h : r.Precedes ls)
    (hls : SourceLine.Ascending ls) {b : OpenBlock} {closer : SourceLine}
    (hcloser : closer ∈ r.closersOf b ls) :
    closer ∈ ls ∧ (∃ kind, closer.event = .closes kind) ∧ b.line < closer.num := by
  induction ls generalizing r with
  | nil => cases hcloser
  | cons l ls ih =>
    obtain hcloser | hcloser := List.mem_append.1 hcloser
    · split at hcloser
      · rename_i hremoves
        obtain rfl := List.mem_singleton.1 hcloser
        have hb : b ∈ r.scope.blocks := List.mem_of_head? (removes_iff.1 hremoves).2
        exact ⟨List.mem_cons_self, hremoves.closes, h.line_lt b hb closer List.mem_cons_self⟩
      · cases hcloser
    · obtain ⟨hmem, hrest⟩ := ih (h.feedBody hls) (List.pairwise_cons.1 hls).2 hcloser
      exact ⟨List.mem_cons_of_mem l hmem, hrest⟩

end Routine

/-! ### Routines -/

/-- Of lines with numbers of their own, no second one opens the same block. -/
theorem countP_opened?_eq_one {ls : List SourceLine} (hls : (ls.map (·.num)).Nodup)
    {l : SourceLine} (hl : l ∈ ls) {b : OpenBlock} (h : l.opened? = some b) :
    ls.countP (·.opened? = some b) = 1 := by
  have hline := Routine.line_of_opened? h
  have hnum : ls.countP (·.num = b.line) = 1 := by
    have hcount := List.count_eq_one_of_mem hls (List.mem_map_of_mem (f := (·.num)) hl)
    rwa [← hline, List.count_eq_countP, List.countP_map] at hcount
  have hle : ls.countP (·.opened? = some b) ≤ ls.countP (·.num = b.line) := by
    refine List.countP_mono_left fun l' _ h' => ?_
    simp only [decide_eq_true_eq] at h' ⊢
    exact (Routine.line_of_opened? h').symm
  have hpos : 0 < ls.countP (·.opened? = some b) :=
    List.countP_pos_iff.2 ⟨l, hl, by simpa using h⟩
  omega

namespace Run

/-- The lines of the routine that take the block off its stack. -/
def closersOf (run : Run) (b : OpenBlock) : List SourceLine := run.start.closersOf b run.lines

/-- One line takes the block off, a terminator behind the line that opened it. -/
def ClosesOnce (run : Run) (b : OpenBlock) : Prop :=
  ∃ closer ∈ run.lines, run.closersOf b = [closer] ∧ (∃ kind, closer.event = .closes kind) ∧
    b.line < closer.num

variable {run : Run} {b : OpenBlock}

theorem precedes (hstart : run.start.scope.blocks = []) : run.start.Precedes run.lines := by
  constructor <;> rw [hstart]
  · exact List.Pairwise.nil
  · exact List.forall_mem_nil _

/-- The blocks that are left open stand innermost first: later ones before earlier ones. -/
theorem leftOpen_descending (hstart : run.start.scope.blocks = [])
    (hls : SourceLine.Ascending run.lines) :
    run.leftOpen.Pairwise fun inner outer => outer.line < inner.line :=
  ((precedes hstart).feedBodies hls).descending

theorem count_leftOpen_add (hstart : run.start.scope.blocks = []) (b : OpenBlock) :
    run.leftOpen.count b + (run.closersOf b).length = run.lines.countP (·.opened? = some b) := by
  have hcount := run.start.feedBodies_count b run.lines
  rwa [hstart, List.count_nil, Nat.zero_add] at hcount

theorem exists_of_mem_leftOpen (hstart : run.start.scope.blocks = []) (hb : b ∈ run.leftOpen) :
    ∃ l ∈ run.lines, l.opened? = some b := by
  have hcount := count_leftOpen_add hstart b
  have hpos := List.count_pos_iff.2 hb
  obtain ⟨l, hl, hopened⟩ : ∃ l ∈ run.lines, decide (l.opened? = some b) = true :=
    List.countP_pos_iff.1 (by omega)
  exact ⟨l, hl, by simpa using hopened⟩

/-- **The account of a routine:** a block that a line opens is taken off by one later terminator,
or it is left open. -/
theorem account (hstart : run.start.scope.blocks = []) (hls : SourceLine.Ascending run.lines)
    {l : SourceLine} (hl : l ∈ run.lines) (hopened : l.opened? = some b) :
    run.ClosesOnce b ∧ run.leftOpen.count b = 0 ∨
      run.closersOf b = [] ∧ run.leftOpen.count b = 1 := by
  have hcount := count_leftOpen_add hstart b
  rw [countP_opened?_eq_one hls.nodup_num hl hopened] at hcount
  cases hclosers : run.closersOf b with
  | nil =>
    rw [hclosers, List.length_nil] at hcount
    exact .inr ⟨rfl, hcount⟩
  | cons closer rest =>
    rw [hclosers, List.length_cons] at hcount
    obtain rfl : rest = [] := List.length_eq_zero_iff.1 (by omega)
    have hmem : closer ∈ run.start.closersOf b run.lines := by
      rw [← closersOf, hclosers]
      exact List.mem_cons_self
    obtain ⟨hline, hcloses, hlt⟩ := (precedes hstart).of_mem_closersOf hls hmem
    exact .inl ⟨⟨closer, hline, hclosers, hcloses, hlt⟩, by simpa using hcount⟩

end Run

/-! ### Programs -/

theorem line_mem_of_mem_flatMap_leftOpen {runs : List Run}
    (hstart : ∀ run ∈ runs, run.start.scope.blocks = []) {b : OpenBlock}
    (hb : b ∈ runs.flatMap Run.leftOpen) : b.line ∈ (runs.flatMap (·.lines)).map (·.num) := by
  obtain ⟨run, hrun, hb⟩ := List.mem_flatMap.1 hb
  obtain ⟨l, hl, hopened⟩ := Run.exists_of_mem_leftOpen (hstart run hrun) hb
  rw [Routine.line_of_opened? hopened]
  exact List.mem_map_of_mem (List.mem_flatMap.2 ⟨run, hrun, hl⟩)

/-- Among routines with lines of their own, a block is left open by the routine of its opening line
and by no other. -/
theorem count_flatMap_leftOpen {runs : List Run}
    (hstart : ∀ run ∈ runs, run.start.scope.blocks = [])
    (hnodup : ((runs.flatMap (·.lines)).map (·.num)).Nodup) {run : Run} (hrun : run ∈ runs)
    {l : SourceLine} (hl : l ∈ run.lines) {b : OpenBlock} (hopened : l.opened? = some b) :
    (runs.flatMap Run.leftOpen).count b = run.leftOpen.count b := by
  induction runs with
  | nil => exact absurd hrun List.not_mem_nil
  | cons first rest ih =>
    rw [List.flatMap_cons, List.map_append] at hnodup
    obtain ⟨-, hnodup, hdisjoint⟩ := List.nodup_append.1 hnodup
    obtain ⟨hfirst, hrest⟩ := List.forall_mem_cons.1 hstart
    rw [List.flatMap_cons, List.count_append]
    obtain rfl | hrun := List.mem_cons.1 hrun
    · -- A later routine that left the block open would hold a line with its number.
      have hnot : b ∉ rest.flatMap Run.leftOpen := fun hb =>
        hdisjoint _ (List.mem_map_of_mem hl) _ (line_mem_of_mem_flatMap_leftOpen hrest hb)
          (Routine.line_of_opened? hopened).symm
      rw [List.count_eq_zero_of_not_mem hnot, Nat.add_zero]
    · have hnot : b ∉ first.leftOpen := fun hb => by
        obtain ⟨l', hl', hopened'⟩ := Run.exists_of_mem_leftOpen hfirst hb
        refine hdisjoint _ (List.mem_map_of_mem hl') _
          (List.mem_map_of_mem (List.mem_flatMap.2 ⟨run, hrun, hl⟩)) ?_
        rw [← Routine.line_of_opened? hopened, Routine.line_of_opened? hopened']
      rw [List.count_eq_zero_of_not_mem hnot, Nat.zero_add, ih hrest hnodup hrun]

/-- The blocks that a conversion reports to be left open, in order. -/
def Conversion.unclosed (c : Conversion) : List OpenBlock :=
  c.details.filterMap Diagnostic.unclosed?

theorem Conversion.ofWritten_unclosed (strict : Bool) (w : Written) (mainName : List Char) :
    (Conversion.ofWritten strict w mainName).unclosed = w.unclosed := by
  simp only [unclosed, ofWritten_details, Written.unclosed, List.filterMap_map]
  exact List.filterMap_congr fun n _ => n.unclosed?_report strict

theorem convert_unclosed {strict : Bool} {src : String} {p : Program}
    (hp : Program.ofLines? (sourceLines 1 src.toList) = some p) :
    (convert strict src).unclosed = p.runs.flatMap Run.leftOpen := by
  simp only [convert_eq, hp, Conversion.ofWritten_unclosed, p.convert_unclosed]

/-- **No block is lost and none is counted twice.**  A block that a line of a routine opens is taken
off the stack by exactly one later terminator of the routine and is not reported, or no line takes
it off and it is reported exactly once.  The blocks that one routine leaves open are reported
together, innermost first. -/
theorem convert_accounts_for_blocks (strict : Bool) (src : String) (p : Program)
    (hp : Program.ofLines? (sourceLines 1 src.toList) = some p) :
    (∀ run ∈ p.runs, ∀ l ∈ run.lines, ∀ b, l.opened? = some b →
      run.ClosesOnce b ∧ (convert strict src).unclosed.count b = 0 ∨
        run.closersOf b = [] ∧ (convert strict src).unclosed.count b = 1) ∧
    (convert strict src).unclosed = p.runs.flatMap Run.leftOpen ∧
    ∀ run ∈ p.runs, run.leftOpen.Pairwise fun inner outer => outer.line < inner.line := by
  have hlines := SourceLine.sourceLines_ascending src.toList
  have hascending : ∀ run ∈ p.runs, SourceLine.Ascending run.lines := fun run hrun =>
    hlines.sublist (Program.runs_sublist hp run hrun)
  refine ⟨fun run hrun l hl b hopened => ?_, convert_unclosed hp, fun run hrun => ?_⟩
  · have hnodup := Program.nodup_runs hp hlines
    rw [convert_unclosed hp, count_flatMap_leftOpen p.runs_blocks hnodup hrun hl hopened]
    exact Run.account (p.runs_blocks run hrun) (hascending run hrun) hl hopened
  · exact Run.leftOpen_descending (p.runs_blocks run hrun) (hascending run hrun)

/-- A terminator of the wrong block takes the innermost one off all the same; two routines leave
blocks open. -/
theorem convert_accounts_for_crossed_blocks :
    let src := "Funcion f()\nSi a Entonces\nMientras b Hacer\nFinSi\nFinFuncion\n" ++
      "Algoritmo p\nRepetir\nPara i\nFinPara\nMientras x Hacer"
    (convert false src).unclosed = [⟨.branch, 2⟩, ⟨.whileLoop, 10⟩, ⟨.repeatLoop, 7⟩] ∧
    ∃ p, Program.ofLines? (sourceLines 1 src.toList) = some p ∧
      (∀ run ∈ p.runs, ∀ l ∈ run.lines, ∀ b, l.opened? = some b →
        run.ClosesOnce b ∧ (convert false src).unclosed.count b = 0 ∨
          run.closersOf b = [] ∧ (convert false src).unclosed.count b = 1) ∧
      (convert false src).unclosed = p.runs.flatMap Run.leftOpen ∧
      ∀ run ∈ p.runs, run.leftOpen.Pairwise fun inner outer => outer.line < inner.line := by
  intro src
  have hstarts : (Program.ofLines? (sourceLines 1 src.toList)).isSome := by decide +kernel
  obtain ⟨p, hp⟩ := Option.isSome_iff_exists.1 hstarts
  exact ⟨by decide +kernel, p, hp, convert_accounts_for_blocks false src p hp⟩

end Pseudocode
