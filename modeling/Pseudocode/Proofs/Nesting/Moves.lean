import Pseudocode.Proofs.Declared.Forms
import Pseudocode.Proofs.Nesting.Account

/-!
# Moves between blocks

Seen from the blocks around them, lines stay, turn to another branch, open a block or close one.
Generated lines move as the lines they are written for, and the open blocks of a routine are those
whose openers are followed by whole blocks only.

* `Move`, `WholeBlocks` : the moves, and lines that close the blocks they open.
* `Routine.codeLines_moves`, `Routine.exists_of_codeLines` : generated lines move as their source
  lines do, and one that moves is found at its source line.
* `Routine.Opened.feedBodies` : **the openers of the open blocks.**
-/

namespace Pseudocode

/-- What a line does to the blocks around it. -/
inductive Move
  /-- It leaves them as they are. -/
  | stays
  /-- It starts another branch. -/
  | turns
  /-- It opens a block. -/
  | opens
  /-- It closes one. -/
  | closes
  deriving DecidableEq, Repr

namespace Move

/-- The number of open blocks after a line; none if the line closes a block and there is none. -/
def after : Nat → Move → Option Nat
  | n, opens => some (n + 1)
  | 0, closes => none
  | n + 1, closes => some n
  | n, _ => some n

/-- From `m` open blocks the lines lead to `n` open blocks. -/
def Leads (m : Nat) (w : List Move) (n : Nat) : Prop := w.foldlM after m = some n

instance (m : Nat) (w : List Move) (n : Nat) : Decidable (Leads m w n) :=
  inferInstanceAs (Decidable (_ = _))

end Move

/-- The lines close the blocks they open, and no others. -/
def WholeBlocks (w : List Move) : Prop := Move.Leads 0 w 0

instance (w : List Move) : Decidable (WholeBlocks w) :=
  inferInstanceAs (Decidable (Move.Leads 0 w 0))

namespace Move

variable {m n k : Nat} {v w : List Move}

theorem leads_append_iff : Leads m (v ++ w) n ↔ ∃ k, Leads m v k ∧ Leads k w n := by
  rw [Leads, List.foldlM_append]
  exact Option.bind_eq_some_iff

theorem Leads.append (hv : Leads m v k) (hw : Leads k w n) : Leads m (v ++ w) n :=
  leads_append_iff.2 ⟨k, hv, hw⟩

theorem after_add {x : Move} (h : after m x = some n) (k : Nat) :
    after (m + k) x = some (n + k) := by
  cases x with
  | opens =>
    cases h
    rw [after, Nat.add_right_comm]
  | closes =>
    cases m with
    | zero => cases h
    | succ m =>
      cases h
      rw [Nat.add_right_comm, after]
  | stays | turns =>
    cases h
    rfl

/-- More blocks that are open around the lines change nothing. -/
theorem Leads.add (h : Leads m w n) (k : Nat) : Leads (m + k) w (n + k) := by
  induction w generalizing m with
  | nil =>
    cases h
    rfl
  | cons x w ih =>
    rw [Leads, List.foldlM_cons] at h ⊢
    obtain ⟨mid, hx, hw⟩ := Option.bind_eq_some_iff.1 h
    exact Option.bind_eq_some_iff.2 ⟨mid + k, after_add hx k, ih hw⟩

end Move

theorem WholeBlocks.append {v w : List Move} (hv : WholeBlocks v) (hw : WholeBlocks w) :
    WholeBlocks (v ++ w) := Move.Leads.append hv hw

theorem WholeBlocks.block {v : List Move} (hv : WholeBlocks v) :
    WholeBlocks (.opens :: (v ++ [.closes])) := by
  have hopen : Move.Leads 0 [.opens] 1 := rfl
  have hclose : Move.Leads 1 [.closes] 0 := rfl
  exact hopen.append ((hv.add 1).append hclose)

/-! ### Moves of lines -/

/-- What an event does to the blocks around it, whatever their kinds are. -/
def BlockEvent.move : BlockEvent → Move
  | other => .stays
  | otherwise => .turns
  | opens _ => .opens
  | closes _ => .closes

/-- What a source line does to the blocks of its routine. -/
def SourceLine.move (l : SourceLine) : Move := if l.isComment then .stays else l.event.move

/-- What a generated line does to the blocks of the code. -/
def CodeLine.move (c : CodeLine) : Move :=
  match c.form with
  | .opens _ | .loop _ => .opens
  | .turns => .turns
  | .closes _ => .closes
  | .comment _ | .plain _ | .lets _ | .writes _ => .stays

/-- The line is of the given kind, and no comment. -/
def SourceLine.IsOf (l : SourceLine) (kind : LineKind) : Prop :=
  l.isComment = false ∧ l.kind? = some kind

instance (l : SourceLine) (kind : LineKind) : Decidable (l.IsOf kind) :=
  inferInstanceAs (Decidable (_ ∧ _))

/-- A line that moves is written as one line that moves alike; the lines that are written for
another one stay. -/
theorem SourceLine.forms_move (l : SourceLine) (names : Names) (depth : Nat) :
    (∃ f, l.forms names = [f] ∧ (CodeLine.mk depth f).move = l.move) ∨
      l.move = .stays ∧ ∀ f ∈ l.forms names, (CodeLine.mk depth f).move = .stays := by
  unfold SourceLine.forms SourceLine.move
  split
  · exact .inl ⟨_, rfl, rfl⟩
  · unfold SourceLine.event
    cases l.kind? with
    | none => exact .inl ⟨_, rfl, rfl⟩
    | some kind =>
      cases kind with
      | input => exact .inr ⟨rfl, List.forall_mem_map.2 fun e _ => rfl⟩
      | dimension | countedLoop | assignment =>
        simp only [LineKind.forms]
        split <;> exact .inl ⟨_, rfl, rfl⟩
      | _ => exact .inl ⟨_, rfl, rfl⟩

namespace SourceLine

variable {l : SourceLine} {kind : LineKind}

theorem IsOf.forms (h : l.IsOf kind) (names : Names) :
    l.forms names = kind.forms l.code names := by
  rw [SourceLine.forms, h.1, h.2]
  rfl

theorem IsOf.event (h : l.IsOf kind) : l.event = kind.event := by
  rw [SourceLine.event, h.2]
  rfl

theorem IsOf.move (h : l.IsOf kind) : l.move = kind.event.move := by
  rw [SourceLine.move, h.1, if_neg Bool.false_ne_true, h.event]

theorem exists_isOf (h : l.move ≠ .stays) : ∃ kind, l.IsOf kind := by
  unfold SourceLine.move SourceLine.event at h
  split at h
  · exact absurd rfl h
  · rename_i hcomment
    cases hkind : l.kind? with
    | none =>
      rw [hkind] at h
      exact absurd rfl h
    | some kind => exact ⟨kind, Bool.eq_false_iff.2 hcomment, hkind⟩

theorem isOf_otherwise (h : l.move = .turns) : l.IsOf .otherwise := by
  obtain ⟨kind, hkind⟩ := exists_isOf (l := l) (by rw [h]; decide)
  rw [hkind.move] at h
  cases kind with
  | otherwise => exact hkind
  | _ => cases h

/-- What is written for a `Si` is written for no other line that opens a block. -/
theorem isOf_branch {names : Names} {line : List Char} (hmove : l.move = .opens)
    (h : l.forms names = [.opens [Header.branch line]]) : l.IsOf .branch := by
  have hif : ∀ {code : List Char}, code = Header.branch line → code.head? = some 'i' := by
    rintro _ rfl
    rfl
  obtain ⟨kind, hkind⟩ := exists_isOf (l := l) (by rw [hmove]; decide)
  rw [hkind.move] at hmove
  rw [hkind.forms] at h
  cases kind with
  | branch => exact hkind
  | whileLoop | repeatLoop =>
    simp only [LineKind.forms, List.cons.injEq, Form.opens.injEq, and_true] at h
    cases hif h
  | countedLoop =>
    simp only [LineKind.forms] at h
    split at h <;> cases h
  | _ => cases hmove

theorem move_of_opened? {b : OpenBlock} (h : l.opened? = some b) :
    l.move = .opens := by
  unfold SourceLine.opened? at h
  unfold SourceLine.move
  split at h
  · cases h
  · rename_i hcomment
    rw [if_neg hcomment]
    split at h
    · rename_i hevent
      rw [hevent]
      rfl
    · cases h

theorem isOf_branch_of_opened? {b : OpenBlock} (h : l.opened? = some b) (hb : b.kind = .branch) :
    l.IsOf .branch ∧ b = ⟨.branch, l.num⟩ := by
  obtain ⟨kind, hkind⟩ := exists_isOf (l := l) (by rw [move_of_opened? h]; decide)
  rw [SourceLine.opened?, hkind.1, if_neg Bool.false_ne_true, hkind.event] at h
  cases kind with
  | branch =>
    cases h
    exact ⟨hkind, rfl⟩
  | whileLoop | countedLoop | repeatLoop =>
    cases h
    cases hb
  | _ => cases h

end SourceLine

namespace Routine

variable (r : Routine)

theorem codeLines_append (ls ls' : List SourceLine) :
    r.codeLines (ls ++ ls') = r.codeLines ls ++ (r.feedBodies ls).2.codeLines ls' := by
  induction ls generalizing r with
  | nil => rfl
  | cons l ls ih =>
    rw [List.cons_append, codeLines, codeLines, ih, List.append_assoc]
    rfl

theorem leads_forms (l : SourceLine) {m n : Nat} :
    Move.Leads m (((l.forms r.scope.names).map (CodeLine.mk r.depth)).map (·.move)) n ↔
      Move.Leads m [l.move] n := by
  obtain ⟨f, hf, hmove⟩ | ⟨hmove, hstays⟩ := l.forms_move r.scope.names r.depth
  · rw [hf, ← hmove]
    rfl
  · rw [hmove]
    generalize l.forms r.scope.names = forms at hstays
    induction forms with
    | nil => exact Iff.rfl
    | cons f forms ih =>
      obtain ⟨hf, hforms⟩ := List.forall_mem_cons.1 hstays
      rw [← ih hforms, List.map_cons, List.map_cons, hf]
      rfl

theorem codeLines_moves {ls : List SourceLine} {m n : Nat} :
    Move.Leads m ((r.codeLines ls).map (·.move)) n ↔ Move.Leads m (ls.map (·.move)) n := by
  induction ls generalizing r m with
  | nil => exact Iff.rfl
  | cons l ls ih =>
    rw [codeLines, List.map_append, Move.leads_append_iff, List.map_cons, ← List.singleton_append,
      Move.leads_append_iff]
    simp only [leads_forms, ih]

/-- A line that moves is found either in what is written for the first source line, and is all of
it, or behind that. -/
theorem eq_of_forms_append {l : SourceLine} {later before after : List CodeLine} {c : CodeLine}
    (h : (l.forms r.scope.names).map (CodeLine.mk r.depth) ++ later = before ++ c :: after)
    (hc : c.move ≠ .stays) :
    (l.forms r.scope.names = [c.form] ∧ l.move = c.move ∧ before = [] ∧ later = after) ∨
      ∃ before', before = (l.forms r.scope.names).map (CodeLine.mk r.depth) ++ before' ∧
        later = before' ++ c :: after := by
  obtain ⟨before', hbefore, hlater⟩ | ⟨here, hhere, hrest⟩ := List.append_eq_append_iff.1 h
  · exact .inr ⟨before', hbefore, hlater⟩
  · cases here with
    | nil => exact .inr ⟨[], by rw [hhere, List.append_nil, List.append_nil], hrest.symm⟩
    | cons c' here =>
      obtain ⟨rfl, rfl⟩ := List.cons.inj hrest
      obtain ⟨f, hf, hmove⟩ | ⟨-, hstays⟩ := l.forms_move r.scope.names r.depth
      · rw [hf] at hhere
        obtain ⟨rfl, hnil⟩ := List.append_eq_singleton_iff.1 hhere.symm |>.resolve_right
          fun hright => List.cons_ne_nil _ _ hright.2
        obtain ⟨rfl, rfl⟩ := List.cons.inj hnil
        exact .inl ⟨hf, hmove.symm, rfl, rfl⟩
      · have hmem : c ∈ (l.forms r.scope.names).map (CodeLine.mk r.depth) := by
          rw [hhere]
          simp
        obtain ⟨f, hf, rfl⟩ := List.mem_map.1 hmem
        exact absurd (hstays f hf) hc

/-- A generated line that moves is all that is written for its source line. -/
theorem exists_of_codeLines {ls : List SourceLine} {before after : List CodeLine} {c : CodeLine}
    (h : r.codeLines ls = before ++ c :: after) (hc : c.move ≠ .stays) :
    ∃ outer l rest, ls = outer ++ l :: rest ∧ r.codeLines outer = before ∧ l.move = c.move ∧
      l.forms (r.feedBodies outer).2.scope.names = [c.form] ∧
      ((r.feedBodies outer).2.feedBody l).2.codeLines rest = after := by
  induction ls generalizing r before with
  | nil => simp [codeLines] at h
  | cons l ls ih =>
    obtain ⟨hforms, hmove, rfl, hafter⟩ | ⟨before', rfl, hlater⟩ := r.eq_of_forms_append h hc
    · exact ⟨[], l, ls, rfl, rfl, hmove, hforms, hafter⟩
    · obtain ⟨outer, l', rest, rfl, rfl, hl'⟩ := ih _ hlater
      exact ⟨l :: outer, l', rest, rfl, rfl, hl'⟩

/-! ### Openers of blocks -/

/-- Each of the open blocks, innermost first, has its opener among the lines, and whole blocks stand
between the openers and behind them. -/
def Opened : List OpenBlock → List SourceLine → Prop
  | [], _ => True
  | b :: blocks, ls => ∃ outer opener inside, ls = outer ++ opener :: inside ∧
    opener.opened? = some b ∧ WholeBlocks (inside.map (·.move)) ∧ Opened blocks outer

theorem Opened.append {blocks : List OpenBlock} {ls ls' : List SourceLine} (h : Opened blocks ls)
    (hls' : WholeBlocks (ls'.map (·.move))) : Opened blocks (ls ++ ls') := by
  cases blocks with
  | nil => trivial
  | cons b blocks =>
    obtain ⟨outer, opener, inside, rfl, hopener, hinside, houter⟩ := h
    refine ⟨outer, opener, inside ++ ls', by simp, hopener, ?_, houter⟩
    rw [List.map_append]
    exact hinside.append hls'

theorem Opened.feedBody {r : Routine} {ls : List SourceLine} (h : Opened r.scope.blocks ls)
    (l : SourceLine) : Opened (r.feedBody l).2.scope.blocks (ls ++ [l]) := by
  have hmove : l.isComment = false → l.move = l.event.move := fun hcomment => by
    rw [SourceLine.move, hcomment]
    rfl
  unfold Routine.feedBody
  split
  · rename_i hcomment
    refine h.append ?_
    rw [List.map_singleton, SourceLine.move, if_pos hcomment]
    rfl
  · rename_i hcomment
    rw [Bool.not_eq_true] at hcomment
    rw [feed_blocks]
    cases hevent : l.event with
    | other | otherwise =>
      refine h.append ?_
      rw [List.map_singleton, hmove hcomment, hevent]
      rfl
    | opens kind =>
      refine ⟨ls, l, [], rfl, ?_, rfl, h⟩
      rw [SourceLine.opened?, hcomment, hevent]
      rfl
    | closes kind =>
      rw [BlockEvent.blocksAfter]
      cases hblocks : r.scope.blocks with
      | nil => trivial
      | cons b blocks =>
        rw [hblocks] at h
        obtain ⟨outer, opener, inside, rfl, hopener, hinside, houter⟩ := h
        -- the opener and the terminator make a whole block of what stands between them
        have hblock : Opened blocks (outer ++ (opener :: (inside ++ [l]))) := by
          refine houter.append ?_
          rw [List.map_cons, List.map_append, List.map_singleton,
            SourceLine.move_of_opened? hopener, hmove hcomment, hevent]
          exact hinside.block
        simpa using hblock

theorem Opened.feedBodies {r : Routine} {front : List SourceLine}
    (h : Opened r.scope.blocks front) (ls : List SourceLine) :
    Opened (r.feedBodies ls).2.scope.blocks (front ++ ls) := by
  induction ls generalizing r front with
  | nil => rwa [List.append_nil]
  | cons l ls ih =>
    rw [← List.singleton_append, ← List.append_assoc]
    exact ih (h.feedBody l)

end Routine

end Pseudocode
