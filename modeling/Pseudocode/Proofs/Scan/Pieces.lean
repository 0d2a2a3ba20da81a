import Pseudocode.Proofs.Scan.Brackets
import Pseudocode.Scan.TopLevel

/-!
# Pieces of well-nested texts

A text is cut at the separators that stand outside literals where the count of its brackets is zero.
The count does not tell the shapes of brackets apart and goes on below zero, but as long as the
brackets read so far can be read with a stack, it is the number of those that are open.  So the
pieces of a well-nested text are well nested, and a bracket that closes nothing stands in its piece
behind a text that is well nested by itself.

* `Leads`, `Whole`, `Unreadable` : texts that lead from open brackets to others, those that change
  none, and those that no open brackets allow.
* `Held` : the state of the scan that cuts a text, as long as its brackets can be read.
* `nested_of_mem_cutTopLevel`, `whole_of_mem_cutTopLevel` : **the pieces of a well-nested text.**
* `exists_cutTopLevel_of_closing` : the piece of a bracket that closes nothing.
-/

namespace Pseudocode

namespace Scan

variable {α : Type} [Symbol α]

/-! ### Texts among others -/

/-- The text is well nested and ends outside literals. -/
structure Whole (s : List α) : Prop where
  nested : Nested (brackets s)
  code : Region.code.afterAll s = .code

/-- Read with the brackets `opened` open, the text leaves the brackets `left` open, and it ends
outside literals. -/
structure Leads (opened : List Bracket) (s : List α) (left : List Bracket) : Prop where
  reads : Reads opened (brackets s) left
  code : Region.code.afterAll s = .code

/-- Whatever brackets are open, the text closes one that is not the innermost one. -/
def Unreadable (s : List α) : Prop := ∀ opened left, ¬ Reads opened (brackets s) left

variable {s t : List α}

theorem brackets_append (h : Region.code.afterAll s = .code) :
    brackets (s ++ t) = brackets s ++ brackets t := by
  rw [brackets, bracketsFrom_append, h]
  rfl

theorem Leads.append {opened mid left : List Bracket} (hs : Leads opened s mid)
    (ht : Leads mid t left) : Leads opened (s ++ t) left := by
  refine ⟨?_, by rw [Region.afterAll_append, hs.code, ht.code]⟩
  rw [brackets_append hs.code]
  exact hs.reads.append ht.reads

theorem Leads.whole (h : Leads [] s []) : Whole s := ⟨nested_brackets_iff.2 h.reads, h.code⟩

theorem Whole.leads (hs : Whole s) (opened : List Bracket) : Leads opened s opened :=
  ⟨hs.nested.reads opened, hs.code⟩

theorem Whole.of_marks (hs : Whole s) (h : marks s = marks t) : Whole t :=
  ⟨by simpa only [brackets, bracketsFrom_congr h] using hs.nested,
    (Region.afterAll_congr h .code).symm.trans hs.code⟩

theorem Unreadable.not_nested (h : Unreadable s) : ¬ Nested (brackets s) :=
  fun hs => h [] [] (hs.reads [])

theorem Unreadable.append_left (h : Unreadable s) (t : List α) : Unreadable (s ++ t) := by
  intro opened left hboth
  rw [brackets, bracketsFrom_append] at hboth
  obtain ⟨mid, hfirst, -⟩ := reads_append_iff.1 hboth
  exact h opened mid hfirst

theorem Unreadable.append_right (hs : Region.code.afterAll s = .code) (h : Unreadable t) :
    Unreadable (s ++ t) := by
  intro opened left hboth
  rw [brackets_append hs] at hboth
  obtain ⟨mid, -, hsecond⟩ := reads_append_iff.1 hboth
  exact h mid left hsecond

/-- A text that closes no bracket of the shape `b`, where such a bracket is the innermost one. -/
theorem unreadable_append {b : Bracket} {inner : List Bracket}
    (hs : Region.code.afterAll s = .code)
    (hreads : ∀ opened, Reads opened (brackets s) (b :: (inner ++ opened)))
    (ht : ∀ opened left, Reads opened (brackets t) left → opened.head? ≠ some b) :
    Unreadable (s ++ t) := by
  intro opened left hboth
  rw [brackets_append hs] at hboth
  obtain ⟨mid, hfirst, hsecond⟩ := reads_append_iff.1 hboth
  obtain rfl := (hreads opened).eq hfirst
  exact ht _ left hsecond rfl

/-- Among texts of the two sorts, one that is not whole is never made good by the others. -/
theorem nested_flatten_iff {parts : List (List α)}
    (h : ∀ part ∈ parts, Whole part ∨ Unreadable part) :
    Nested (brackets parts.flatten) ↔ ∀ part ∈ parts, Whole part := by
  induction parts with
  | nil => exact iff_of_true .nil (List.forall_mem_nil _)
  | cons part parts ih =>
    obtain ⟨hpart, hparts⟩ := List.forall_mem_cons.1 h
    rw [List.flatten_cons, List.forall_mem_cons, ← ih hparts]
    obtain hwhole | hbad := hpart
    · rw [nested_brackets_iff, nested_brackets_iff, brackets_append hwhole.code, reads_append_iff]
      refine ⟨fun ⟨mid, hfirst, hsecond⟩ => ⟨hwhole, ?_⟩, fun ⟨_, hrest⟩ =>
        ⟨[], hwhole.nested.reads [], hrest⟩⟩
      obtain rfl := (hwhole.nested.reads []).eq hfirst
      exact hsecond
    · exact iff_of_false (hbad.append_left _).not_nested fun hboth =>
        hbad.not_nested hboth.1.nested

/-- A text with a bracket that closes nothing, behind a text that is well nested, can be read only
where that bracket closes the innermost one. -/
theorem head?_of_reads_closing {c : α} {b : Bracket} {opened left : List Bracket} (hs : Whole s)
    (hc : role c = .closing b) (h : Reads opened (brackets (s ++ c :: t)) left) :
    opened.head? = some b := by
  rw [brackets_append hs.code] at h
  obtain ⟨mid, hfirst, hrest⟩ := reads_append_iff.1 h
  obtain rfl := (hs.nested.reads opened).eq hfirst
  rw [brackets, bracketsFrom, hc] at hrest
  obtain ⟨mid, hclosing, -⟩ := reads_append_iff.1 hrest
  rw [eq_cons_of_reads_closing hclosing]
  rfl

/-- Where a bracket of a text stands: outside literals, behind the brackets before it. -/
theorem exists_append_of_bracketsFrom {r : Region} {v w : List Role} {x : Role}
    (h : bracketsFrom r s = v ++ x :: w) :
    ∃ front c back, s = front ++ c :: back ∧ role c = x ∧ bracketsFrom r front = v ∧
      r.afterAll front = .code := by
  induction s generalizing r v with
  | nil => cases v <;> cases h
  | cons c cs ih =>
    rw [bracketsFrom, bracketOf] at h
    split at h
    · rename_i hc
      cases v with
      | nil =>
        obtain ⟨hx, -⟩ := List.cons.inj h
        refine ⟨[], c, cs, rfl, hx, rfl, ?_⟩
        cases r with
        | code => rfl
        | literal q => cases hc
      | cons y v =>
        obtain ⟨hy, hrest⟩ := List.cons.inj h
        obtain ⟨front, d, back, rfl, hd, hfront, hcode⟩ := ih hrest
        refine ⟨c :: front, d, back, rfl, hd, ?_, hcode⟩
        rw [bracketsFrom, bracketOf, if_pos hc, hfront, ← hy]
        rfl
    · rename_i hc
      obtain ⟨front, d, back, rfl, hd, hfront, hcode⟩ := ih h
      refine ⟨c :: front, d, back, rfl, hd, ?_, hcode⟩
      rw [bracketsFrom, bracketOf, if_neg hc, hfront]
      rfl

/-! ### The scan -/

/-- As long as brackets can be read, the count of brackets is the number of those that are open. -/
theorem Level.depth_after {l : Level} {x : Role} {opened mid : List Bracket}
    (hdepth : l.depth = opened.length) (h : Reads opened (bracketOf l.region x) mid) :
    (l.after x).depth = mid.length := by
  cases hr : l.region with
  | literal q =>
    rw [hr] at h
    cases h
    simp [Level.after, hr, Region.holds, hdepth]
  | code =>
    rw [hr] at h
    cases x with
    | plain | quote q =>
      cases h
      simp [Level.after, hr, Region.holds, Role.isQuote, Role.depthChange, hdepth]
    | opening b =>
      cases h
      simp [Level.after, hr, Region.holds, Role.isQuote, Role.depthChange, hdepth]
    | closing b =>
      obtain rfl := eq_cons_of_reads_closing h
      simp only [Level.after, hr, Region.holds, Role.isQuote, Role.depthChange, hdepth,
        List.length_cons, Bool.false_eq_true, if_false]
      omega

/-- The state of the scan that cuts a text: it stands at the level `l`, and the piece that is being
read, last symbol first, has left the brackets `opened` open. -/
structure Held (l : Level) (held : List α) (opened : List Bracket) : Prop where
  region : Region.code.afterAll held.reverse = l.region
  reads : Reads [] (brackets held.reverse) opened
  depth : l.depth = opened.length

namespace Held

variable {l : Level} {held : List α} {opened : List Bracket} {c : α}

theorem start : Held .start ([] : List α) [] := ⟨rfl, rfl, rfl⟩

theorem push {mid : List Bracket} (h : Held l held opened)
    (hc : Reads opened (bracketOf l.region (role c)) mid) :
    Held (l.after (role c)) (c :: held) mid := by
  refine ⟨?_, ?_, Level.depth_after h.depth hc⟩
  · rw [List.reverse_cons, Region.afterAll_append, h.region]
    rfl
  · have hlast : bracketsFrom l.region [c] = bracketOf l.region (role c) := List.append_nil _
    rw [List.reverse_cons, brackets, bracketsFrom_append, h.region, hlast]
    exact h.reads.append hc

/-- At a separator at the top level no bracket is open. -/
theorem of_atTop (h : Held l held opened) (htop : l.atTop .plain = true) :
    opened = [] ∧ Whole held.reverse ∧ l.after .plain = .start := by
  obtain ⟨hcode, hdepth⟩ := Bool.and_eq_true_iff.1 htop
  have hregion : l.region = .code := by
    cases hr : l.region with
    | code => rfl
    | literal q =>
      rw [hr] at hcode
      cases hcode
  have hzero : l.depth = 0 := by
    simpa [Level.after, hregion, Region.holds, Role.isQuote, Role.depthChange] using hdepth
  obtain rfl : opened = [] := by
    have hlength := h.depth
    rw [hzero] at hlength
    exact List.length_eq_zero_iff.1 (by omega)
  refine ⟨rfl, (Leads.mk h.reads (h.region.trans hregion)).whole, ?_⟩
  simp [Level.after, Level.start, hregion, hzero, Region.after, Region.holds, Role.isQuote,
    Role.depthChange]

variable [DecidableEq α] {sep : α}

/-- The pieces of a text that closes what the scan has left open. -/
theorem nested_of_mem_cutFrom (h : Held l held opened) (hsep : role sep = .plain)
    (hs : Reads opened (bracketsFrom l.region s) []) :
    ∀ piece ∈ cutFrom sep l held s, Nested (brackets piece) ∧
      (l.region.afterAll s = .code → Region.code.afterAll piece = .code) := by
  induction s generalizing l held opened with
  | nil =>
    intro piece hpiece
    obtain rfl := List.mem_singleton.1 hpiece
    cases hs
    exact ⟨nested_brackets_iff.2 h.reads, fun hcode => h.region.trans hcode⟩
  | cons c cs ih =>
    rw [bracketsFrom] at hs
    obtain ⟨mid, hc, hcs⟩ := reads_append_iff.1 hs
    rw [cutFrom]
    split
    · rename_i hcut
      simp only [Bool.and_eq_true, decide_eq_true_eq] at hcut
      obtain ⟨htop, rfl⟩ := hcut
      rw [hsep] at htop hcs
      obtain ⟨rfl, hwhole, hstart⟩ := h.of_atTop htop
      rw [hsep, bracketOf_plain] at hc
      cases hc
      refine List.forall_mem_cons.2 ⟨⟨hwhole.nested, fun _ => hwhole.code⟩, ?_⟩
      have hregion : l.region.after .plain = .code := congrArg Level.region hstart
      rw [hregion] at hcs
      rw [hsep, hstart, Region.afterAll_cons, hsep, hregion]
      exact ih Held.start hcs
    · exact ih (h.push hc) hcs

theorem exists_eq_cons_of_cutFrom (sep : α) (l : Level) (held s : List α) :
    ∃ back pieces, cutFrom sep l held s = (held.reverse ++ back) :: pieces := by
  induction s generalizing l held with
  | nil => exact ⟨[], [], by simp [cutFrom]⟩
  | cons c cs ih =>
    rw [cutFrom]
    split
    · exact ⟨[], _, by rw [List.append_nil]⟩
    · obtain ⟨back, pieces, heq⟩ := ih (l.after (role c)) (c :: held)
      exact ⟨c :: back, pieces, by rw [heq, List.reverse_cons, List.append_assoc]; rfl⟩

/-- The piece of a bracket that closes nothing, behind a text that closes what the scan has left
open. -/
theorem exists_cutFrom_of_closing {b : Bracket} (h : Held l held opened)
    (hsep : role sep = .plain) (hs : Reads opened (bracketsFrom l.region s) [])
    (hcode : l.region.afterAll s = .code) (hc : role c = .closing b) (t : List α) :
    ∃ before front back after, cutFrom sep l held (s ++ c :: t) =
        before ++ (front ++ c :: back) :: after ∧
      (∀ piece ∈ before, Region.code.afterAll piece = .code) ∧ Whole front := by
  induction s generalizing l held opened with
  | nil =>
    cases hs
    have hwhole : Whole held.reverse := (Leads.mk h.reads (h.region.trans hcode)).whole
    have hne : c ≠ sep := by
      rintro rfl
      cases hsep.symm.trans hc
    obtain ⟨back, after, heq⟩ := exists_eq_cons_of_cutFrom sep (l.after (role c)) (c :: held) t
    refine ⟨[], held.reverse, back, after, ?_, List.forall_mem_nil _, hwhole⟩
    rw [List.nil_append, cutFrom, if_neg (by simp [hne]), heq]
    simp
  | cons a s ih =>
    rw [bracketsFrom] at hs
    obtain ⟨mid, ha, hs⟩ := reads_append_iff.1 hs
    rw [Region.afterAll_cons] at hcode
    rw [List.cons_append, cutFrom]
    split
    · rename_i hcut
      simp only [Bool.and_eq_true, decide_eq_true_eq] at hcut
      obtain ⟨htop, rfl⟩ := hcut
      rw [hsep] at htop hs hcode
      obtain ⟨rfl, hwhole, hstart⟩ := h.of_atTop htop
      rw [hsep, bracketOf_plain] at ha
      cases ha
      have hregion : l.region.after .plain = .code := congrArg Level.region hstart
      rw [hregion] at hs hcode
      obtain ⟨before, front, back, after, heq, hbefore, hfront⟩ := ih Held.start hs hcode
      refine ⟨held.reverse :: before, front, back, after, ?_, ?_, hfront⟩
      · rw [hsep, hstart, heq]
        rfl
      · exact List.forall_mem_cons.2 ⟨hwhole.code, hbefore⟩
    · exact ih (h.push ha) hs hcode

end Held

/-! ### Pieces -/

variable [DecidableEq α] {sep : α}

/-- **The pieces of a well-nested text are well nested.** -/
theorem nested_of_mem_cutTopLevel (hsep : role sep = .plain) (hs : Nested (brackets s)) :
    ∀ piece ∈ cutTopLevel sep s, Nested (brackets piece) := fun piece hpiece =>
  (Held.start.nested_of_mem_cutFrom hsep (hs.reads []) piece hpiece).1

theorem whole_of_mem_cutTopLevel (hsep : role sep = .plain) (hs : Whole s) :
    ∀ piece ∈ cutTopLevel sep s, Whole piece := by
  intro piece hpiece
  obtain ⟨hnested, hcode⟩ :=
    Held.start.nested_of_mem_cutFrom hsep (hs.nested.reads []) piece hpiece
  exact ⟨hnested, hcode hs.code⟩

/-- **The piece of a bracket that closes nothing:** it starts with a text that is well nested, and
the pieces before it end outside literals. -/
theorem exists_cutTopLevel_of_closing {c : α} {b : Bracket} (hsep : role sep = .plain)
    (hs : Whole s) (hc : role c = .closing b) (t : List α) :
    ∃ before front back after, cutTopLevel sep (s ++ c :: t) =
        before ++ (front ++ c :: back) :: after ∧
      (∀ piece ∈ before, Region.code.afterAll piece = .code) ∧ Whole front :=
  Held.start.exists_cutFrom_of_closing hsep (hs.nested.reads []) hs.code hc t

end Scan

end Pseudocode
