import Mathlib.Data.List.Forall2
import Pseudocode.Proofs.Written
import Pseudocode.Proofs.Program.Basic

/-!
# Routines over corresponding lines

What a line becomes depends on its code.  Its number and its text are carried along: they go into
notices and open blocks, and never decide what is written.  Here two routines are run side by side
over lines that correspond, where `Correspondence` is any relation between lines of the same code.
Only a line of no known form shows its text in the code, as a comment, and then it is reported.

* `Notice.Matches`, `OpenBlock.Matches` : the two are about lines that correspond.
* `Written.Matches` : the notices match, and the same code is written where the lines that are kept
  as comments have the same text.
* `Routine.Matches.feedBodies` : **corresponding lines keep two routines in step.**
* `Routine.Matches.closeBlocks`, `Routine.Matches.close` : and so do their ends.
-/

namespace Pseudocode

/-! ### Lines that correspond -/

namespace SourceLine

/-- The two lines are converted alike: they have the same code, and the same text if they are
comments. -/
structure Alike (l l' : SourceLine) : Prop where
  code_eq : l'.code = l.code
  lower_eq : l'.lower = l.lower
  isComment_eq : l'.isComment = l.isComment
  text_eq : l.isComment = true → l'.text = l.text

namespace Alike

variable {l l' : SourceLine}

theorem kind?_eq (h : l.Alike l') : l'.kind? = l.kind? := by
  have hfits : LineKind.fits l' = LineKind.fits l := by
    funext kind
    cases kind <;> simp only [LineKind.fits, hasKeyword, isCloser, h.code_eq, h.lower_eq]
  simp only [kind?, hfits]

theorem isProgramStart_eq (h : l.Alike l') : l'.isProgramStart = l.isProgramStart := by
  simp only [isProgramStart, hasKeyword, h.lower_eq, h.isComment_eq]

theorem isProgramEnd_eq (h : l.Alike l') : l'.isProgramEnd = l.isProgramEnd := by
  simp only [isProgramEnd, isCloser, h.lower_eq]

theorem isFunctionStart_eq (h : l.Alike l') : l'.isFunctionStart = l.isFunctionStart := by
  simp only [isFunctionStart, hasKeyword, h.lower_eq]

theorem isFunctionEnd_eq (h : l.Alike l') : l'.isFunctionEnd = l.isFunctionEnd := by
  simp only [isFunctionEnd, isCloser, h.lower_eq]

theorem programName_eq (h : l.Alike l') : l'.programName = l.programName := by
  simp only [programName, h.code_eq]

end Alike

end SourceLine

/-- A way to tell which lines of two sources correspond; such lines are converted alike. -/
structure Correspondence where
  /-- The two lines correspond. -/
  Line : SourceLine → SourceLine → Prop
  alike : ∀ {l l' : SourceLine}, Line l l' → l.Alike l'

/-- The numbers of two lines that correspond. -/
def Correspondence.Number (S : Correspondence) (n n' : Int) : Prop :=
  ∃ l l', S.Line l l' ∧ l.num = n ∧ l'.num = n'

theorem Correspondence.number_of_line {S : Correspondence} {l l' : SourceLine} (h : S.Line l l') :
    S.Number l.num l'.num :=
  ⟨l, l', h, rfl, rfl⟩

/-- The blocks are of the same kind, and the lines that opened them correspond. -/
structure OpenBlock.Matches (S : Correspondence) (b b' : OpenBlock) : Prop where
  kind_eq : b'.kind = b.kind
  line : S.Number b.line b'.line

/-- The causes are the same, up to the line of the block that one of them names. -/
inductive Cause.Matches (S : Correspondence) : Cause → Cause → Prop
  | wrongCloser {b b' : OpenBlock} (h : b.Matches S b') :
    Matches S (.wrongCloser b) (.wrongCloser b')
  | same {cause : Cause} (h : ∀ b, cause ≠ .wrongCloser b) : Matches S cause cause

/-- The notices say the same about lines that correspond. -/
inductive Notice.Matches (S : Correspondence) : Notice → Notice → Prop
  | quote {l l' : SourceLine} {cause cause' : Cause} (hl : S.Line l l')
    (hcause : cause.Matches S cause') : Matches S (l.notice cause) (l'.notice cause')
  | unclosed {b b' : OpenBlock} (h : b.Matches S b') : Matches S (.ofUnclosed b) (.ofUnclosed b')
  | missingEnd {n n' : Int} (h : S.Number n n') : Matches S (.ofMissingEnd n) (.ofMissingEnd n')

/-- The lines that are reported to be of no known form have the text of the lines that correspond
to them. -/
def Written.KeepsTexts (S : Correspondence) (w : Written) : Prop :=
  ∀ l l', S.Line l l' → l.notice .unrecognised ∈ w.notices → l'.text = l.text

/-- The notices match one by one, and the same code is written if it keeps the same texts as
comments. -/
structure Written.Matches (S : Correspondence) (w w' : Written) : Prop where
  pieces_eq : w.KeepsTexts S → w'.pieces = w.pieces
  notices : List.Forall₂ (Notice.Matches S) w.notices w'.notices

/-- The routines are in the same state, up to the lines that opened their blocks. -/
structure Routine.Matches (S : Correspondence) (r r' : Routine) : Prop where
  names_eq : r'.scope.names = r.scope.names
  depth_eq : r'.depth = r.depth
  blocks : List.Forall₂ (OpenBlock.Matches S) r.scope.blocks r'.scope.blocks

variable {S : Correspondence}

namespace Written.Matches

theorem code (ps : List Piece) : (Written.code ps).Matches S (.code ps) := ⟨fun _ => rfl, .nil⟩

theorem empty : Written.empty.Matches S .empty := ⟨fun _ => rfl, .nil⟩

theorem quote {l l' : SourceLine} {cause : Cause} (ps : List Piece) (hl : S.Line l l')
    (hcause : ∀ b, cause ≠ .wrongCloser b) :
    (Written.mk ps [l.notice cause]).Matches S ⟨ps, [l'.notice cause]⟩ :=
  ⟨fun _ => rfl, .cons (.quote hl (.same hcause)) .nil⟩

theorem quoteIf {l l' : SourceLine} {cause : Cause} (c : Prop) [Decidable c] (ps : List Piece)
    (hl : S.Line l l') (hcause : ∀ b, cause ≠ .wrongCloser b) :
    (Written.mk ps (if c then [l.notice cause] else [])).Matches S
      ⟨ps, if c then [l'.notice cause] else []⟩ := by
  by_cases h : c
  · simpa only [if_pos h] using quote ps hl hcause
  · simpa only [if_neg h] using ⟨fun _ => rfl, .nil⟩

theorem append {a a' b b' : Written} (ha : a.Matches S a') (hb : b.Matches S b') :
    (a ++ b).Matches S (a' ++ b') := by
  refine ⟨fun h => ?_, List.rel_append ha.notices hb.notices⟩
  have hfirst : a.KeepsTexts S := fun l l' hl hn => h l l' hl (List.mem_append_left _ hn)
  have hsecond : b.KeepsTexts S := fun l l' hl hn => h l l' hl (List.mem_append_right _ hn)
  rw [pieces_append, pieces_append, ha.pieces_eq hfirst, hb.pieces_eq hsecond]

end Written.Matches

/-! ### Lines of a routine -/

namespace Routine

theorem closerNotices_matches {l l' : SourceLine} (hl : S.Line l l') (kind : BlockKind)
    {bs bs' : List OpenBlock} (h : List.Forall₂ (OpenBlock.Matches S) bs bs') :
    List.Forall₂ (Notice.Matches S) (closerNotices l kind bs.head?)
      (closerNotices l' kind bs'.head?) := by
  cases h with
  | nil => exact .cons (.quote hl (.same fun _ => Cause.noConfusion)) .nil
  | cons hb _ =>
    simp only [List.head?_cons, closerNotices, hb.kind_eq]
    split
    · exact .nil
    · exact .cons (.quote hl (.wrongCloser hb)) .nil

theorem isOutsideBranch_matches {bs bs' : List OpenBlock}
    (h : List.Forall₂ (OpenBlock.Matches S) bs bs') :
    bs'.head?.all (·.kind != .branch) = bs.head?.all (·.kind != .branch) := by
  cases h with
  | nil => rfl
  | cons hb _ => simp only [List.head?_cons, Option.all_some, hb.kind_eq]

namespace Matches

variable {r r' : Routine} {l l' : SourceLine}

theorem start (depth : Nat) : (Routine.start depth).Matches S (.start depth) := ⟨rfl, rfl, .nil⟩

theorem withNames (h : r.Matches S r') (names : Names) :
    (r.withNames names).Matches S (r'.withNames names) :=
  ⟨rfl, h.depth_eq, h.blocks⟩

theorem statement (h : r.Matches S r') (code : List Char) :
    r'.statement code = r.statement code := by
  simp only [Routine.statement, h.depth_eq]

theorem openBlock (h : r.Matches S r') (hl : S.Line l l') (kind : BlockKind)
    (codes : List (List Char)) :
    (r'.openBlock kind l' codes).1 = (r.openBlock kind l codes).1 ∧
      (r.openBlock kind l codes).2.Matches S (r'.openBlock kind l' codes).2 := by
  simp only [Routine.openBlock, Scope.push, h.depth_eq, true_and]
  exact ⟨h.names_eq, rfl, .cons ⟨rfl, Correspondence.number_of_line hl⟩ h.blocks⟩

theorem closeBlock (h : r.Matches S r') (hl : S.Line l l') (kind : BlockKind) (code : List Char) :
    (r.closeBlock kind l code).1.Matches S (r'.closeBlock kind l' code).1 ∧
      (r.closeBlock kind l code).2.Matches S (r'.closeBlock kind l' code).2 := by
  simp only [Routine.closeBlock, Scope.pop, Scope.top?, h.depth_eq]
  refine ⟨⟨fun _ => rfl, closerNotices_matches hl kind h.blocks⟩, h.names_eq, rfl, ?_⟩
  simpa only [List.drop_one] using List.forall₂_drop 1 h.blocks

theorem otherwise (h : r.Matches S r') (hl : S.Line l l') :
    (r.otherwise l).1.Matches S (r'.otherwise l').1 ∧
      (r.otherwise l).2.Matches S (r'.otherwise l').2 := by
  simp only [Routine.otherwise, Scope.top?, isOutsideBranch_matches h.blocks, h.depth_eq]
  exact ⟨.quoteIf _ _ hl fun _ => Cause.noConfusion, h.names_eq, rfl, h.blocks⟩

/-- Lines of the same kind that correspond lead from matching routines to matching ones. -/
theorem feedKind (h : r.Matches S r') (hl : S.Line l l') (kind : LineKind) :
    (r.feedKind l kind).1.Matches S (r'.feedKind l' kind).1 ∧
      (r.feedKind l kind).2.Matches S (r'.feedKind l' kind).2 := by
  have hcode := (S.alike hl).code_eq
  -- what opens a block is written as code, with the block that is open after it
  have hopens : ∀ (block : BlockKind) (codes : List (List Char)),
      (Written.code (r.openBlock block l codes).1).Matches S
          (.code (r'.openBlock block l' codes).1) ∧
        (r.openBlock block l codes).2.Matches S (r'.openBlock block l' codes).2 := by
    intro block codes
    obtain ⟨hpieces, hroutine⟩ := h.openBlock hl block codes
    exact ⟨hpieces ▸ .code _, hroutine⟩
  cases kind with
  | declaration | dimension | assignment =>
    simp only [Routine.feedKind, hcode, h.names_eq, h.statement]
    exact ⟨.code _, h.withNames _⟩
  | input =>
    simp only [Routine.feedKind, hcode, h.names_eq, h.depth_eq]
    exact ⟨.quote _ hl fun _ => Cause.noConfusion, h.withNames _⟩
  | output | call =>
    simp only [Routine.feedKind, hcode, h.statement]
    exact ⟨.code _, h⟩
  | otherwise => exact h.otherwise hl
  | endBranch | endWhile | endCounted => exact h.closeBlock hl _ _
  | untilLoop =>
    simp only [Routine.feedKind, hcode]
    exact h.closeBlock hl _ _
  | branch | whileLoop | repeatLoop =>
    simp only [Routine.feedKind, hcode]
    exact hopens _ _
  | countedLoop =>
    simp only [Routine.feedKind, hcode, h.names_eq]
    split
    · exact hopens _ _
    · obtain ⟨hpieces, hroutine⟩ :=
        h.openBlock hl .countedLoop [Header.unconvertedLoop l.code, "\x7b".toList]
      exact ⟨⟨fun _ => hpieces, .cons (.quote hl (.same fun _ => Cause.noConfusion)) .nil⟩,
        hroutine⟩

theorem convertLine (h : r.Matches S r') (hl : S.Line l l') :
    (r.convertLine l).1.Matches S (r'.convertLine l').1 ∧
      (r.convertLine l).2.Matches S (r'.convertLine l').2 := by
  simp only [Routine.convertLine, (S.alike hl).kind?_eq]
  cases hkind : l.kind? with
  | some kind => exact h.feedKind hl kind
  | none =>
    refine ⟨⟨fun hkeeps => ?_, .cons (.quote hl (.same fun _ => Cause.noConfusion)) .nil⟩, h⟩
    -- the line is kept as a comment and reported, so its text is kept too
    rw [hkeeps l l' hl (List.mem_singleton_self _), h.depth_eq]

theorem feed (h : r.Matches S r') (hl : S.Line l l') :
    (r.feed l).1.Matches S (r'.feed l').1 ∧ (r.feed l).2.Matches S (r'.feed l').2 := by
  have hliteral : (Written.mk [] (literalNotices l)).Matches S ⟨[], literalNotices l'⟩ := by
    simp only [literalNotices, (S.alike hl).code_eq]
    exact .quoteIf _ _ hl fun _ => Cause.noConfusion
  obtain ⟨hline, hroutine⟩ := h.convertLine hl
  exact ⟨hliteral.append hline, hroutine⟩

theorem feedBody (h : r.Matches S r') (hl : S.Line l l') :
    (r.feedBody l).1.Matches S (r'.feedBody l').1 ∧
      (r.feedBody l).2.Matches S (r'.feedBody l').2 := by
  unfold Routine.feedBody
  rw [(S.alike hl).isComment_eq]
  split
  · rename_i hcomment
    rw [(S.alike hl).text_eq hcomment]
    exact ⟨.code _, h⟩
  · exact h.feed hl

/-- **Corresponding bodies keep two routines in step.** -/
theorem feedBodies {ls ls' : List SourceLine} (h : r.Matches S r')
    (hls : List.Forall₂ S.Line ls ls') :
    (r.feedBodies ls).1.Matches S (r'.feedBodies ls').1 ∧
      (r.feedBodies ls).2.Matches S (r'.feedBodies ls').2 := by
  induction hls generalizing r r' with
  | nil => exact ⟨.empty, h⟩
  | cons hl _ ih =>
    obtain ⟨hfirst, hroutine⟩ := h.feedBody hl
    obtain ⟨hrest, hlast⟩ := ih hroutine
    exact ⟨hfirst.append hrest, hlast⟩

end Matches

/-! ### The end of a routine -/

/-- The lines that close blocks depend on the kinds of the blocks only. -/
theorem closeAll_matches {bs bs' : List OpenBlock}
    (h : List.Forall₂ (OpenBlock.Matches S) bs bs') (depth : Nat) :
    closeAll bs' depth = closeAll bs depth := by
  induction h generalizing depth with
  | nil => rfl
  | cons hb _ ih =>
    match depth with
    | 0 | 1 => simp only [closeAll, ih]
    | d + 2 => simp only [closeAll, ih, hb.kind_eq]

namespace Matches

variable {r r' : Routine}

theorem closeBlocks (h : r.Matches S r') :
    r.closeBlocks.1.Matches S r'.closeBlocks.1 ∧ r.closeBlocks.2.Matches S r'.closeBlocks.2 := by
  simp only [Routine.closeBlocks, Scope.drain, h.depth_eq, closeAll_matches h.blocks]
  refine ⟨⟨fun _ => rfl, ?_⟩, h.names_eq, rfl, .nil⟩
  exact List.rel_map (fun _ _ hb => .unclosed hb) h.blocks

theorem close (h : r.Matches S r') :
    r.close.1.Matches S r'.close.1 ∧ r.close.2.Matches S r'.close.2 := by
  obtain ⟨hwritten, hroutine⟩ := h.closeBlocks
  exact ⟨hwritten.append (.code _), hroutine.names_eq, rfl, hroutine.blocks⟩

end Matches

end Routine

end Pseudocode
