import Pseudocode.Proofs.Program.Basic
import Pseudocode.Proofs.Braces.Text
import Pseudocode.Proofs.Routine.Depth

/-!
# Braces in the body of a routine

While the body of a routine is converted, every open block has a brace that is open, and the nesting
depth counts the open blocks.  Terminators of the wrong block keep this so; only a terminator or a
`Sino` that belongs to no block at all breaks it.  The end of a routine closes what is left open.

* `Routine.feedKind_leads` : the braces of a line are those of its event.
* `Routine.feedBody_leads`, `Routine.feedBodies_leads` : **open braces follow open blocks,** line by
  line and over a whole body.
* `Routine.closeBlocks_leads`, `Routine.close_leads` : the end of a routine closes its braces.
-/

namespace Pseudocode

open Braces

/-! ### Pieces -/

theorem Piece.leads_line {m n : Nat} {code : List Char} (h : Leads m code n) (depth : Nat) :
    Leads m (Piece.line depth code).text n := by
  have hindent : BraceFree (indent depth) := by
    intro c hc
    rw [indent] at hc
    obtain rfl := List.eq_of_mem_replicate hc
    decide
  have hfeed : Leads n ['\n'] n := rfl
  exact ((hindent.leads m).append h).append hfeed

theorem leads_render_line {m n : Nat} {code : List Char} (h : Leads m code n) (depth : Nat) :
    Leads m (render [.line depth code]) n := by
  rw [render_cons, render_nil, List.append_nil]
  exact Piece.leads_line h depth

theorem leads_render_lines {codes : List (List Char)} (h : ∀ code ∈ codes, BraceFree code)
    (depth m : Nat) : Leads m (render (codes.map (.line depth))) m := by
  induction codes with
  | nil => rfl
  | cons code codes ih =>
    obtain ⟨hcode, hcodes⟩ := List.forall_mem_cons.1 h
    exact (Piece.leads_line (hcode.leads m) depth).append (ih hcodes)

/-! ### Lines -/

/-- Neither the text nor the code of the line holds a brace. -/
structure SourceLine.NoBraces (l : SourceLine) : Prop where
  text : BraceFree l.text
  code : BraceFree l.code

/-- What an event does to the number of open braces: `m` before it and `n` after it. -/
def BlockEvent.Moves : BlockEvent → (m n : Nat) → Prop
  | other, m, n => n = m
  | opens _, m, n => n = m + 1
  | closes _, m, n => m = n + 1
  | otherwise, m, n => n = m ∧ 0 < m

namespace Routine

variable (r : Routine) {l : SourceLine}

theorem leads_statement {m : Nat} {code : List Char} (h : Leads m code m) :
    Leads m (render (r.statement code)) m := by
  unfold statement
  split
  · exact leads_render_line (leads_nil m) 0
  · exact leads_render_line h r.depth

/-- **The braces of a line are those of its event.** -/
theorem feedKind_leads (h : BraceFree l.code) (kind : LineKind) {m n : Nat}
    (hmoves : kind.event.Moves m n) : Leads m (render (r.feedKind l kind).1.pieces) n := by
  cases kind with
  | declaration =>
    obtain rfl := hmoves
    exact r.leads_statement ((Statement.braceFree_declaration h _).leads _)
  | dimension =>
    obtain rfl := hmoves
    exact r.leads_statement (Statement.leads_dimension h _ _)
  | input =>
    obtain rfl := hmoves
    refine leads_render_lines (Statement.braceFree_readTargets (fun target ht => ?_) _) r.depth _
    exact h.mono (Statement.subset_of_mem_inputTargets ht)
  | output =>
    obtain rfl := hmoves
    exact r.leads_statement ((Statement.braceFree_output h).leads _)
  | assignment =>
    obtain rfl := hmoves
    exact r.leads_statement ((Statement.braceFree_assignment h _).leads _)
  | call =>
    obtain rfl := hmoves
    exact r.leads_statement ((Statement.braceFree_call h).leads _)
  | branch =>
    obtain rfl := hmoves
    exact leads_render_line (Header.leads_branch h m) r.depth
  | whileLoop =>
    obtain rfl := hmoves
    exact leads_render_line (Header.leads_whileLoop h m) r.depth
  | countedLoop =>
    obtain rfl := hmoves
    simp only [feedKind]
    split
    · rename_i code hcode
      exact leads_render_line (Header.leads_countedLoop h hcode m) r.depth
    · -- a header that is kept as a comment is followed by a block without one
      have hcomment : Leads m "// Para no convertido: ".toList m := rfl
      have hbrace : Leads m "\x7b".toList (m + 1) := rfl
      exact (Piece.leads_line (hcomment.append (h.leads m)) r.depth).append
        (leads_render_line hbrace r.depth)
  | repeatLoop =>
    obtain rfl := hmoves
    have hbrace : Leads m "do \x7b".toList (m + 1) := rfl
    exact leads_render_line hbrace r.depth
  | endBranch | endWhile | endCounted =>
    obtain rfl := hmoves
    have hbrace : Leads (n + 1) "\x7d".toList n := rfl
    exact leads_render_line hbrace (r.depth - 1)
  | untilLoop =>
    obtain rfl := hmoves
    exact leads_render_line (Header.leads_untilLoop h n) (r.depth - 1)
  | otherwise =>
    obtain ⟨rfl, hpos⟩ := hmoves
    obtain ⟨m, rfl⟩ := Nat.exists_eq_succ_of_ne_zero (Nat.pos_iff_ne_zero.1 hpos)
    have hbraces : Leads (m + 1) "\x7d else \x7b".toList (m + 1) := rfl
    exact leads_render_line hbraces (r.depth - 1)

theorem feed_leads (hl : l.NoBraces) {m n : Nat} (hmoves : l.event.Moves m n) :
    Leads m (render (r.feed l).1.pieces) n := by
  simp only [feed, convertLine, Written.pieces_append, List.nil_append]
  unfold SourceLine.event at hmoves
  cases hkind : l.kind? with
  | none =>
    rw [hkind] at hmoves
    obtain rfl := hmoves
    have hcomment : Leads n "// ".toList n := rfl
    exact leads_render_line (hcomment.append (hl.text.leads n)) r.depth
  | some kind =>
    rw [hkind] at hmoves
    exact r.feedKind_leads hl.code kind hmoves

end Routine

/-! ### Bodies -/

/-- No notice reports a terminator or a `Sino` that belongs to no block. -/
def Written.Straight (w : Written) : Prop :=
  ∀ n ∈ w.notices, n.cause ≠ .strayCloser ∧ n.cause ≠ .strayElse

theorem Written.straight_append_iff {a b : Written} :
    (a ++ b).Straight ↔ a.Straight ∧ b.Straight :=
  List.forall_mem_append

namespace BlockEvent

variable {e : BlockEvent} {blocks : List OpenBlock}

/-- An event that belongs to a block moves the open braces with the open blocks. -/
theorem moves_length (h : ∀ cause ∈ e.fault? blocks.head?,
    cause ≠ .strayCloser ∧ cause ≠ .strayElse) (line : Int) (base : Nat) :
    e.Moves (base + blocks.length) (base + (e.blocksAfter line blocks).length) := by
  cases e with
  | other => rfl
  | opens kind => rfl
  | closes kind =>
    -- a terminator of the wrong block closes that block all the same
    cases blocks with
    | nil => exact absurd rfl (h _ rfl).1
    | cons b bs => rfl
  | otherwise =>
    cases blocks with
    | nil => exact absurd rfl (h _ rfl).2
    | cons b bs => exact ⟨rfl, Nat.succ_pos _⟩

theorem depthAfter_length (h : ∀ cause ∈ e.fault? blocks.head?,
    cause ≠ .strayCloser ∧ cause ≠ .strayElse) (line : Int) :
    e.depthAfter (blocks.length + 1) = (e.blocksAfter line blocks).length + 1 := by
  refine e.depthAfter_succ_length line fun kind hkind hblocks => ?_
  subst hkind hblocks
  exact (h _ rfl).1 rfl

end BlockEvent

namespace Routine

/-- The nesting depth counts the body of the routine and the open blocks. -/
def Aligned (r : Routine) : Prop := r.depth = r.scope.blocks.length + 1

variable {r : Routine} {l : SourceLine}

theorem fault?_of_straight (h : (r.feed l).1.Straight) :
    ∀ cause ∈ l.event.fault? r.scope.blocks.head?,
      cause ≠ .strayCloser ∧ cause ≠ .strayElse := by
  intro cause hcause
  have hfault : l.notice cause ∈ (r.feed l).1.faults := by
    rw [feed_faults]
    exact List.mem_map_of_mem (Option.mem_toList.2 hcause)
  exact h _ (List.mem_filter.1 hfault).1

/-- **Open braces follow open blocks:** a line moves both alike. -/
theorem feedBody_leads (hr : r.Aligned) (hl : l.NoBraces) (hw : (r.feedBody l).1.Straight)
    (base : Nat) :
    Leads (base + r.scope.blocks.length) (render (r.feedBody l).1.pieces)
      (base + (r.feedBody l).2.scope.blocks.length) ∧ (r.feedBody l).2.Aligned := by
  by_cases hc : l.isComment = true
  · have hbody : r.feedBody l = (.code [.line 0 l.text], r) := if_pos hc
    rw [hbody]
    exact ⟨leads_render_line (hl.text.leads _) 0, hr⟩
  · have hbody : r.feedBody l = r.feed l := if_neg hc
    rw [hbody] at hw ⊢
    have hfault := fault?_of_straight hw
    refine ⟨r.feed_leads hl ?_, ?_⟩
    · rw [feed_blocks]
      exact BlockEvent.moves_length hfault l.num base
    · rw [Aligned, feed_blocks, feed_depth, hr]
      exact BlockEvent.depthAfter_length hfault l.num

theorem feedBodies_leads {ls : List SourceLine} (hr : r.Aligned) (hls : ∀ l ∈ ls, l.NoBraces)
    (hw : (r.feedBodies ls).1.Straight) (base : Nat) :
    Leads (base + r.scope.blocks.length) (render (r.feedBodies ls).1.pieces)
      (base + (r.feedBodies ls).2.scope.blocks.length) ∧ (r.feedBodies ls).2.Aligned := by
  induction ls generalizing r with
  | nil => exact ⟨leads_nil _, hr⟩
  | cons l ls ih =>
    obtain ⟨hl, hls⟩ := List.forall_mem_cons.1 hls
    obtain ⟨hfirst, hrest⟩ := Written.straight_append_iff.1 hw
    obtain ⟨hleads, haligned⟩ := feedBody_leads hr hl hfirst base
    obtain ⟨hleads', haligned'⟩ := ih haligned hls hrest
    refine ⟨?_, haligned'⟩
    simp only [feedBodies, Written.pieces_append, render_append]
    exact hleads.append hleads'

/-! ### The end of a routine -/

theorem leads_forcedCloser (kind : BlockKind) (m : Nat) :
    Leads (m + 1) (forcedCloser kind) m := by
  cases kind <;> rfl

theorem leads_closeAll (blocks : List OpenBlock) (base : Nat) :
    Leads (base + blocks.length) (render (closeAll blocks (blocks.length + 1))) base := by
  induction blocks with
  | nil => rfl
  | cons b bs ih =>
    have hcloser := leads_forcedCloser b.kind (base + bs.length)
    exact (Piece.leads_line hcloser (bs.length + 1)).append ih

/-- Closing the open blocks closes their braces. -/
theorem closeBlocks_leads (hr : r.Aligned) (base : Nat) :
    Leads (base + r.scope.blocks.length) (render r.closeBlocks.1.pieces) base := by
  have hclose := leads_closeAll r.scope.blocks base
  rwa [← hr] at hclose

theorem closeBlocks_aligned (hr : r.Aligned) : r.closeBlocks.2.Aligned := by
  have hdepth : min r.depth 1 = 1 := by
    rw [hr]
    omega
  exact hdepth

/-- The end of a routine closes the braces of its blocks and that of its body. -/
theorem close_leads (hr : r.Aligned) :
    Leads (1 + r.scope.blocks.length) (render r.close.1.pieces) 0 := by
  have hbody : Leads 1 (render [.line 0 "\x7d".toList, .blank]) 0 := rfl
  simp only [close, Written.pieces_append, Written.pieces_code, render_append]
  exact (closeBlocks_leads hr 1).append hbody

end Routine

end Pseudocode
