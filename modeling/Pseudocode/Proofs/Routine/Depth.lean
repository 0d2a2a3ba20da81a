import Pseudocode.Proofs.Pass.Routine
import Pseudocode.Proofs.Routine.Step

/-!
# Nesting depth and open blocks

A pass counts its nesting depth and keeps a stack of the open blocks, and each line changes the two
separately.  Neither goes below zero, so a terminator that finds no open block lowers the depth
alone, and from then on the two may differ.  The depth has one level to spare for the body of the
routine, and never falls below the number of open blocks.

* `BlockEvent.length_blocksAfter_le`, `BlockEvent.depthAfter_near` : what one event does to the two.
* `BlockEvent.depthAfter_succ_length` : an event that finds the block it closes keeps them in step.
* `Pass.length_blocks_le_depth`, `Pass.depth_eq_of_closers` : the same over a whole run.
* `depth_follows_blocks` : **depth and open blocks after each line of a run.**
-/

namespace Pseudocode

namespace BlockEvent

variable (e : BlockEvent) (line : Int) {blocks : List OpenBlock}

theorem depthAfter_near (depth : Nat) :
    e.depthAfter depth ≤ depth + 1 ∧ depth ≤ e.depthAfter depth + 1 := by
  cases e <;> simp only [depthAfter] <;> omega

/-- An event leaves no more blocks open than there are levels, if there were no more before it. -/
theorem length_blocksAfter_le {depth : Nat} (h : blocks.length ≤ depth) :
    (e.blocksAfter line blocks).length ≤ e.depthAfter depth := by
  cases e with
  | other => exact h
  | otherwise =>
    simp only [blocksAfter, depthAfter]
    omega
  | opens kind => exact Nat.succ_le_succ h
  | closes kind =>
    simp only [blocksAfter, depthAfter, List.length_tail]
    omega

/-- An event keeps the depth one above the number of open blocks, unless it is a terminator that
finds none.  A `Sino` does so wherever it stands, since the depth is not zero. -/
theorem depthAfter_succ_length (h : ∀ kind, e = .closes kind → blocks ≠ []) :
    e.depthAfter (blocks.length + 1) = (e.blocksAfter line blocks).length + 1 := by
  cases e with
  | other => rfl
  | otherwise => rfl
  | opens kind => rfl
  | closes kind =>
    obtain ⟨b, bs, rfl⟩ := List.exists_cons_of_ne_nil (h kind rfl)
    rfl

end BlockEvent

namespace Pass

variable {p : Pass}

theorem feed_blocks (p : Pass) (l : SourceLine) :
    (p.feed l).scope.blocks = l.event.blocksAfter l.num p.scope.blocks := by
  rw [feed_eq]
  exact p.routine.feed_blocks l

theorem feed_depth (p : Pass) (l : SourceLine) :
    (p.feed l).writer.depth = l.event.depthAfter p.writer.depth := by
  rw [feed_eq]
  exact p.routine.feed_depth l

/-- Among the lines there is a terminator that finds no open block. -/
def FindsNoBlock (p : Pass) (ls : List SourceLine) : Prop :=
  ∃ before l after, ls = before ++ l :: after ∧ (∃ kind, l.event = .closes kind) ∧
    (p.feedAll before).scope.blocks = []

theorem feedAll_cons (p : Pass) (l : SourceLine) (ls : List SourceLine) :
    p.feedAll (l :: ls) = (p.feed l).feedAll ls := rfl

theorem feedAll_concat (p : Pass) (ls : List SourceLine) (l : SourceLine) :
    p.feedAll (ls ++ [l]) = (p.feedAll ls).feed l := List.foldl_append

theorem FindsNoBlock.cons {l : SourceLine} {ls : List SourceLine}
    (h : (p.feed l).FindsNoBlock ls) : p.FindsNoBlock (l :: ls) := by
  obtain ⟨before, closer, after, rfl, hcloses, hblocks⟩ := h
  exact ⟨l :: before, closer, after, rfl, hcloses, hblocks⟩

/-- **In every run, the open blocks are no more than the levels.** -/
theorem length_blocks_le_depth (h : p.scope.blocks.length ≤ p.writer.depth)
    (ls : List SourceLine) :
    (p.feedAll ls).scope.blocks.length ≤ (p.feedAll ls).writer.depth := by
  induction ls generalizing p with
  | nil => exact h
  | cons l ls ih =>
    rw [feedAll_cons]
    refine ih ?_
    rw [feed_blocks, feed_depth]
    exact l.event.length_blocksAfter_le l.num h

/-- **A run whose terminators all find a block keeps depth and open blocks in step.** -/
theorem depth_eq_of_closers (h : p.writer.depth = p.scope.blocks.length + 1)
    {ls : List SourceLine} (hclosers : ¬ p.FindsNoBlock ls) :
    (p.feedAll ls).writer.depth = (p.feedAll ls).scope.blocks.length + 1 := by
  induction ls generalizing p with
  | nil => exact h
  | cons l ls ih =>
    have hline : ∀ kind, l.event = .closes kind → p.scope.blocks ≠ [] := fun kind hkind hblocks =>
      hclosers ⟨[], l, ls, rfl, ⟨kind, hkind⟩, hblocks⟩
    rw [feedAll_cons]
    refine ih ?_ fun hrest => hclosers hrest.cons
    rw [feed_blocks, feed_depth, h]
    exact l.event.depthAfter_succ_length l.num hline

end Pass

/-- **Depth and open blocks stay in step.**  Lines are fed to a pass at depth one without open
blocks.  After each of them the open blocks are no more than the depth, which has changed by one at
most, and as long as every terminator has found a block, the depth is one more than their number. -/
theorem depth_follows_blocks (opts : Options) (diag : Diagnostics) (names : Names)
    (text : List Char) (ls : List SourceLine) (l : SourceLine) :
    let p : Pass := ⟨⟨⟨names, []⟩, diag, opts⟩, ⟨text, 1⟩⟩
    let before := p.feedAll ls
    let after := p.feedAll (ls ++ [l])
    after.scope.blocks.length ≤ after.writer.depth ∧
    (after.writer.depth ≤ before.writer.depth + 1 ∧
      before.writer.depth ≤ after.writer.depth + 1) ∧
    (¬ p.FindsNoBlock (ls ++ [l]) → after.writer.depth = after.scope.blocks.length + 1) := by
  intro p before after
  have hstart : p.scope.blocks.length ≤ p.writer.depth := Nat.zero_le 1
  have hafter : after = before.feed l := p.feedAll_concat ls l
  refine ⟨Pass.length_blocks_le_depth hstart _, ?_, Pass.depth_eq_of_closers rfl⟩
  rw [hafter, Pass.feed_depth]
  exact l.event.depthAfter_near before.writer.depth

/-- Behind a terminator without a block the depth may be that of the open blocks alone. -/
example :
    let p : Pass := ⟨⟨.empty, .empty, ⟨true⟩⟩, ⟨[], 1⟩⟩
    let after := p.feedAll (sourceLines 1 "FinSi\nRepetir".toList)
    after.writer.depth = 1 ∧ after.scope.blocks = [⟨.repeatLoop, 2⟩] := by decide +kernel

end Pseudocode
