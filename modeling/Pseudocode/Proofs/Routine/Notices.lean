import Pseudocode.Proofs.Written
import Pseudocode.Proofs.Program.Basic

/-!
# What routines report

A line of a routine reports only on itself: each of its notices quotes it.  The blocks that are
left open are reported when the routine ends, each once and nothing else with them.

* `feedBodies_quotes` : **the lines of a routine report on themselves.**
* `closeBlocks_notices`, `MainRoutine.convert_unclosed` and the like : what the end of a routine
  reports.
-/

namespace Pseudocode

namespace Cause

/-- A notice with this cause quotes the line it is about; the others name a block or a marker that
is missing. -/
def quotesLine : Cause → Bool
  | unclosedBlock _ | missingStart | missingEnd => false
  | _ => true

end Cause

namespace Notice

/-- The notice is about the line, and quotes it. -/
structure Quotes (n : Notice) (l : SourceLine) : Prop where
  line_eq : n.line = l.num
  code_eq : n.code = String.ofList l.text
  quotesLine : n.cause.quotesLine = true

/-- The block that the notice reports to be left open, if it reports one. -/
def unclosed? (n : Notice) : Option OpenBlock :=
  match n.cause with
  | .unclosedBlock kind => some ⟨kind, n.line⟩
  | _ => none

@[simp] theorem unclosed?_ofUnclosed (b : OpenBlock) : (ofUnclosed b).unclosed? = some b := rfl

theorem Quotes.unclosed?_eq_none {n : Notice} {l : SourceLine} (h : n.Quotes l) :
    n.unclosed? = none := by
  have hquotes := h.quotesLine
  unfold unclosed?
  split
  · rename_i hcause
    rw [hcause] at hquotes
    cases hquotes
  · rfl

end Notice

theorem SourceLine.notice_quotes (l : SourceLine) {cause : Cause} (h : cause.quotesLine = true) :
    (l.notice cause).Quotes l :=
  ⟨rfl, rfl, h⟩

namespace Written

/-- The blocks that are reported to be left open, in order. -/
def unclosed (w : Written) : List OpenBlock := w.notices.filterMap Notice.unclosed?

@[simp] theorem unclosed_append (a b : Written) : (a ++ b).unclosed = a.unclosed ++ b.unclosed :=
  List.filterMap_append

@[simp] theorem unclosed_empty : empty.unclosed = [] := rfl

@[simp] theorem unclosed_code (ps : List Piece) : (code ps).unclosed = [] := rfl

theorem unclosed_eq_nil {w : Written} (h : ∀ n ∈ w.notices, ∃ l, n.Quotes l) : w.unclosed = [] := by
  refine List.filterMap_eq_nil_iff.2 fun n hn => ?_
  obtain ⟨l, hl⟩ := h n hn
  exact hl.unclosed?_eq_none

end Written

namespace Routine

variable (r : Routine) (l : SourceLine)

/-! ### Lines -/

theorem closeBlock_quotes (kind : BlockKind) (code : List Char) :
    ∀ n ∈ (r.closeBlock kind l code).1.notices, n.Quotes l := by
  intro n hn
  simp only [closeBlock, Scope.pop] at hn
  cases htop : r.scope.top? with
  | none =>
    rw [htop] at hn
    obtain rfl := List.mem_singleton.1 hn
    exact l.notice_quotes rfl
  | some b =>
    rw [htop, closerNotices] at hn
    split at hn
    · cases hn
    · obtain rfl := List.mem_singleton.1 hn
      exact l.notice_quotes rfl

theorem feedKind_quotes (kind : LineKind) : ∀ n ∈ (r.feedKind l kind).1.notices, n.Quotes l := by
  intro n hn
  cases kind with
  | input =>
    obtain rfl := List.mem_singleton.1 hn
    exact l.notice_quotes rfl
  | otherwise =>
    simp only [feedKind, otherwise] at hn
    split at hn
    · obtain rfl := List.mem_singleton.1 hn
      exact l.notice_quotes rfl
    · cases hn
  | countedLoop =>
    simp only [feedKind] at hn
    split at hn
    · cases hn
    · obtain rfl := List.mem_singleton.1 hn
      exact l.notice_quotes rfl
  | endBranch | endWhile | endCounted | untilLoop => exact r.closeBlock_quotes l _ _ n hn
  | declaration | dimension | output | branch | whileLoop | repeatLoop | assignment | call =>
    cases hn

theorem feed_quotes : ∀ n ∈ (r.feed l).1.notices, n.Quotes l := by
  intro n hn
  simp only [feed, Written.notices_append, List.mem_append] at hn
  obtain hn | hn := hn
  · simp only [literalNotices] at hn
    split at hn
    · obtain rfl := List.mem_singleton.1 hn
      exact l.notice_quotes rfl
    · cases hn
  · simp only [convertLine] at hn
    split at hn
    · exact r.feedKind_quotes l _ n hn
    · obtain rfl := List.mem_singleton.1 hn
      exact l.notice_quotes rfl

theorem feedBody_quotes : ∀ n ∈ (r.feedBody l).1.notices, n.Quotes l := by
  unfold feedBody
  split
  · exact List.forall_mem_nil _
  · exact r.feed_quotes l

/-- **The lines of a routine report on themselves.** -/
theorem feedBodies_quotes (ls : List SourceLine) :
    ∀ n ∈ (r.feedBodies ls).1.notices, ∃ l ∈ ls, n.Quotes l := by
  induction ls generalizing r with
  | nil => exact List.forall_mem_nil _
  | cons l ls ih =>
    simp only [feedBodies, Written.notices_append]
    refine List.forall_mem_append.2 ⟨fun n hn => ?_, fun n hn => ?_⟩
    · exact ⟨l, List.mem_cons_self, r.feedBody_quotes l n hn⟩
    · obtain ⟨l', hl', hquotes⟩ := ih _ n hn
      exact ⟨l', List.mem_cons_of_mem l hl', hquotes⟩

theorem feedBody_unclosed : (r.feedBody l).1.unclosed = [] :=
  Written.unclosed_eq_nil fun n hn => ⟨l, r.feedBody_quotes l n hn⟩

theorem feedBodies_unclosed (ls : List SourceLine) : (r.feedBodies ls).1.unclosed = [] := by
  refine Written.unclosed_eq_nil fun n hn => ?_
  obtain ⟨l, -, hquotes⟩ := r.feedBodies_quotes ls n hn
  exact ⟨l, hquotes⟩

/-! ### The end of a routine -/

theorem closeBlocks_notices : r.closeBlocks.1.notices = r.scope.blocks.map .ofUnclosed := rfl

theorem close_notices : r.close.1.notices = r.scope.blocks.map .ofUnclosed := by
  simp only [close, Written.notices_append, Written.notices_code, List.append_nil]
  exact r.closeBlocks_notices

theorem filterMap_unclosed?_map_ofUnclosed (blocks : List OpenBlock) :
    (blocks.map Notice.ofUnclosed).filterMap Notice.unclosed? = blocks := by
  simp [List.filterMap_map, Function.comp_def]

theorem close_unclosed : r.close.1.unclosed = r.scope.blocks := by
  rw [Written.unclosed, close_notices, filterMap_unclosed?_map_ofUnclosed]

end Routine

theorem MainRoutine.convert_notices (s : MainRoutine) :
    s.convert.notices = ((Routine.start 1).feedBodies s.body).1.notices ++
      ((Routine.start 1).feedBodies s.body).2.scope.blocks.map .ofUnclosed := by
  simp only [MainRoutine.convert, Written.notices_append, Written.notices_code, List.nil_append,
    Routine.close_notices]

theorem MainRoutine.convert_unclosed (s : MainRoutine) :
    s.convert.unclosed = ((Routine.start 1).feedBodies s.body).2.scope.blocks := by
  simp only [MainRoutine.convert, Written.unclosed_append, Written.unclosed_code, List.nil_append,
    Routine.feedBodies_unclosed, Routine.close_unclosed]

namespace OpenFunction

theorem start_quotes (l : SourceLine) : ∀ n ∈ (start l).1.notices, n.Quotes l := by
  unfold start
  split
  · exact List.forall_mem_nil _
  · intro n hn
    obtain rfl := List.mem_singleton.1 hn
    exact l.notice_quotes rfl

/-- The end of a function reports its open blocks once, though it closes blocks twice. -/
theorem close_notices (f : OpenFunction) :
    f.close.notices = f.routine.scope.blocks.map .ofUnclosed := by
  have hdrained : f.routine.closeBlocks.2.scope.blocks = [] := rfl
  simp only [close]
  split
  · simp only [Written.notices_append, Written.notices_code, Routine.closeBlocks_notices,
      Routine.close_notices, hdrained, List.map_nil, List.append_nil]
  · simp only [Written.notices_append, Written.notices_code, Routine.closeBlocks_notices,
      List.append_nil]

theorem close_unclosed (f : OpenFunction) : f.close.unclosed = f.routine.scope.blocks := by
  rw [Written.unclosed, close_notices, Routine.filterMap_unclosed?_map_ofUnclosed]

theorem closeUnended_unclosed (f : OpenFunction) :
    f.closeUnended.unclosed = f.routine.scope.blocks := by
  have hheader : Written.unclosed ⟨[], [f.header.notice .unclosedFunction]⟩ = [] := rfl
  rw [closeUnended, Written.unclosed_append, hheader, List.nil_append, close_unclosed]

end OpenFunction

end Pseudocode
