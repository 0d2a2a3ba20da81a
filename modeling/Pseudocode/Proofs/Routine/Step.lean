import Pseudocode.Proofs.Nesting.Word
import Pseudocode.Proofs.Routine.Basic

/-!
# What a line does to a routine

A line acts on the open blocks and on the nesting depth of a routine only through its event, and
the faults that it reports are those of its event.  Nothing else about the conversion of a line is
needed to follow blocks and depth through a routine.

* `feed_blocks`, `feed_depth` : the open blocks and the depth after a line.
* `feed_faults` : the faults that a line reports.
* `close_faults` : those that the end of a routine reports.
-/

namespace Pseudocode

/-- What a line of the kind does to the blocks of a routine. -/
def LineKind.event : LineKind → BlockEvent
  | branch => .opens .branch
  | otherwise => .otherwise
  | endBranch => .closes .branch
  | whileLoop => .opens .whileLoop
  | endWhile => .closes .whileLoop
  | countedLoop => .opens .countedLoop
  | endCounted => .closes .countedLoop
  | repeatLoop => .opens .repeatLoop
  | untilLoop => .closes .repeatLoop
  | declaration | dimension | input | output | assignment | call => .other

/-- What a line does to the blocks of a routine; a line of no known form does nothing. -/
def SourceLine.event (l : SourceLine) : BlockEvent := (l.kind?.map LineKind.event).getD .other

namespace BlockEvent

/-- The open blocks after the event, which happens on the given line. -/
def blocksAfter (line : Int) : BlockEvent → List OpenBlock → List OpenBlock
  | opens kind, blocks => ⟨kind, line⟩ :: blocks
  | closes _, blocks => blocks.tail
  | _, blocks => blocks

/-- The nesting depth after the event. -/
def depthAfter : BlockEvent → Nat → Nat
  | opens _, depth => depth + 1
  | closes _, depth => depth - 1
  | otherwise, depth => depth - 1 + 1
  | other, depth => depth

/-- The fault of the event if the given block is the innermost one. -/
def fault? : BlockEvent → Option OpenBlock → Option Cause
  | otherwise, top => if top.all (·.kind != .branch) then some .strayElse else none
  | closes _, none => some .strayCloser
  | closes kind, some b => if b.kind = kind then none else some (.wrongCloser b)
  | _, _ => none

theorem map_kind_blocksAfter (e : BlockEvent) (line : Int) (blocks : List OpenBlock) :
    (e.blocksAfter line blocks).map (·.kind) = e.after (blocks.map (·.kind)) := by
  cases e <;> simp [blocksAfter, after, List.map_tail]

theorem fault?_eq_none_iff {e : BlockEvent} {blocks : List OpenBlock} :
    e.fault? blocks.head? = none ↔ e.Fits (blocks.map (·.kind)) := by
  cases e <;> cases blocks <;> simp [fault?, Fits]

end BlockEvent

namespace Routine

variable (r : Routine) (l : SourceLine)

theorem closeBlock_faults (kind : BlockKind) (code : List Char) :
    (r.closeBlock kind l code).1.faults =
      ((BlockEvent.closes kind).fault? r.scope.top?).toList.map l.notice := by
  simp only [closeBlock, Scope.pop, Written.faults]
  cases r.scope.top? with
  | none => rfl
  | some b =>
    by_cases h : b.kind = kind <;>
      simp [closerNotices, BlockEvent.fault?, h, SourceLine.notice, Notice.report,
        Diagnostic.isError, Cause.category, Cause.isNesting]

theorem otherwise_faults :
    (r.otherwise l).1.faults = (BlockEvent.otherwise.fault? r.scope.top?).toList.map l.notice := by
  simp only [otherwise, Written.faults, BlockEvent.fault?]
  split <;> simp [SourceLine.notice, Notice.report, Diagnostic.isError,
        Cause.category, Cause.isNesting]

theorem feedKind_blocks (kind : LineKind) :
    (r.feedKind l kind).2.scope.blocks = kind.event.blocksAfter l.num r.scope.blocks := by
  cases kind with
  | countedLoop => simp only [feedKind]; split <;> rfl
  | _ => rfl

theorem feedKind_depth (kind : LineKind) :
    (r.feedKind l kind).2.depth = kind.event.depthAfter r.depth := by
  cases kind with
  | countedLoop => simp only [feedKind]; split <;> rfl
  | _ => rfl

theorem feedKind_faults (kind : LineKind) :
    (r.feedKind l kind).1.faults = (kind.event.fault? r.scope.top?).toList.map l.notice := by
  cases kind with
  | countedLoop => simp only [feedKind]; split <;> rfl
  | otherwise => exact r.otherwise_faults l
  | endBranch | endWhile | endCounted | untilLoop => exact r.closeBlock_faults l _ _
  | _ => rfl

/-- **The open blocks after a line.** -/
theorem feed_blocks :
    (r.feed l).2.scope.blocks = l.event.blocksAfter l.num r.scope.blocks := by
  simp only [feed, convertLine, SourceLine.event]
  cases l.kind? with
  | none => rfl
  | some kind => exact r.feedKind_blocks l kind

/-- **The nesting depth after a line.** -/
theorem feed_depth : (r.feed l).2.depth = l.event.depthAfter r.depth := by
  simp only [feed, convertLine, SourceLine.event]
  cases l.kind? with
  | none => rfl
  | some kind => exact r.feedKind_depth l kind

theorem faults_literalNotices : Written.faults ⟨[], literalNotices l⟩ = [] := by
  simp only [Written.faults, literalNotices]
  split <;> rfl

/-- **The faults that a line reports.** -/
theorem feed_faults :
    (r.feed l).1.faults = (l.event.fault? r.scope.top?).toList.map l.notice := by
  simp only [feed, convertLine, SourceLine.event, Written.faults_append, faults_literalNotices,
    List.nil_append]
  cases l.kind? with
  | none => rfl
  | some kind => exact r.feedKind_faults l kind

theorem closeBlocks_faults : r.closeBlocks.1.faults = r.scope.blocks.map .ofUnclosed := by
  simp only [closeBlocks, Scope.drain, Written.faults, List.filter_eq_self, List.mem_map]
  rintro _ ⟨b, -, rfl⟩
  rfl

/-- **The faults that the end of a routine reports:** one for each open block. -/
theorem close_faults : r.close.1.faults = r.scope.blocks.map .ofUnclosed := by
  simp only [close, Written.faults_append, Written.faults_code, List.append_nil]
  exact r.closeBlocks_faults

end Routine

end Pseudocode
