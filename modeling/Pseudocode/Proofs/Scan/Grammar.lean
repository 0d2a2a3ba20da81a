import Mathlib.Data.List.Induction
import Mathlib.Logic.ExistsUnique
import Pseudocode.Proofs.Scan.Segmented
import Pseudocode.Scan.Cursor

/-!
# The grammar of literals

A text is written in one way only as a list of segments: runs of code, which are as long as they can
be, and literals, each from a quote to the next one of the same kind.  Only the last literal may run
to the end of the text instead.  A scan knows nothing of segments, just the quote that it waits for,
and still finds exactly the literals of that list.

* `Decomposes` : the segments that a text falls into, as a grammar.
* `Decomposes.eq_segments`, `decomposes_segments` : every text falls into its segments, and into no
  others.
* `Decomposes.holds_iff` : which symbols a scan takes for parts of literals.
* `literals_recognised` : **a scan recognises the literals of the grammar.**
* `mapCode_laws` : **mapped code run by run, once and several times.**
-/

namespace Pseudocode

namespace Scan

variable {α : Type} [Symbol α]

/-! ### The grammar -/

/-- The text runs from a quote to the next one of the same kind. -/
def ClosedLiteral (q : Quote) (text : List α) : Prop :=
  ∃ (c : α) (body : List α) (d : α), text = c :: (body ++ [d]) ∧ role c = .quote q ∧
    (∀ x ∈ body, role x ≠ .quote q) ∧ role d = .quote q

/-- The text starts with a quote that no other one closes. -/
def OpenLiteral (q : Quote) (text : List α) : Prop :=
  ∃ (c : α) (body : List α), text = c :: body ∧ role c = .quote q ∧ ∀ x ∈ body, role x ≠ .quote q

/-- A text falls into segments, whose symbols make it up in order. -/
inductive Decomposes : List (Segment α) → List α → Prop
  | nil : Decomposes [] []
  /-- The last literal may run to the end of the text. -/
  | unclosed {q : Quote} {text : List α} (h : OpenLiteral q text) :
    Decomposes [.literal text] text
  /-- Anything may follow a literal that is closed. -/
  | closed {q : Quote} {text : List α} {segs : List (Segment α)} {s : List α}
    (h : ClosedLiteral q text) (hs : Decomposes segs s) :
    Decomposes (.literal text :: segs) (text ++ s)
  /-- A run of code is not empty, has no quotes and is not followed by another one. -/
  | run {run : List α} {segs : List (Segment α)} {s : List α} (hne : run ≠ [])
    (hrun : QuoteFree run) (hmax : ∀ next rest, segs ≠ .code next :: rest)
    (hs : Decomposes segs s) : Decomposes (.code run :: segs) (run ++ s)

variable {q : Quote} {text run s : List α} {segs : List (Segment α)}

theorem OpenLiteral.not_closed (h : OpenLiteral q text) (p : Quote) : ¬ ClosedLiteral p text := by
  rintro ⟨c, body, d, htext, hc, -, hd⟩
  obtain ⟨c', body', htext', hc', hbody'⟩ := h
  obtain ⟨rfl, rfl⟩ := List.cons.inj (htext'.symm.trans htext)
  obtain rfl : q = p := Role.quote.inj (hc'.symm.trans hc)
  exact hbody' d (by simp) hd

theorem Decomposes.startsInCode_eq_false (h : Decomposes segs s)
    (hmax : ∀ next rest, segs ≠ .code next :: rest) : startsInCode s = false := by
  cases h with
  | nil => rfl
  | unclosed h =>
    obtain ⟨c, body, rfl, hc, -⟩ := h
    rw [startsInCode, hc]
    rfl
  | closed h hs =>
    obtain ⟨c, body, d, rfl, hc, -⟩ := h
    rw [List.cons_append, startsInCode, hc]
    rfl
  | run => exact absurd rfl (hmax _ _)

/-! ### Every text falls into its segments -/

theorem segments_open (h : OpenLiteral q text) : segments text = [.literal text] := by
  obtain ⟨c, body, rfl, hc, hbody⟩ := h
  have hsegments := segmentsFrom_body hbody [c] []
  rw [List.append_nil] at hsegments
  rw [segments, segmentsFrom_code_quote hc, hsegments, segmentsFrom]
  simp [consRun]

theorem segments_closed_append (h : ClosedLiteral q text) (s : List α) :
    segments (text ++ s) = .literal text :: segments s := by
  obtain ⟨c, body, d, rfl, hc, hbody, hd⟩ := h
  rw [List.cons_append, List.append_assoc, List.singleton_append, segments,
    segmentsFrom_code_quote hc, segmentsFrom_body hbody, segmentsFrom_literal_close hd]
  simp [consRun, segments]

theorem segments_run_append (hne : run ≠ []) (hrun : QuoteFree run)
    (hs : startsInCode s = false) : segments (run ++ s) = .code run :: segments s := by
  rw [segments, segmentsFrom_run hrun, List.append_nil]
  cases s with
  | nil => simp [segmentsFrom, segments, consRun, hne]
  | cons c cs =>
    obtain ⟨q, hq⟩ := Role.isQuote_iff.1 (by simpa [startsInCode] using hs)
    rw [segmentsFrom_code_quote hq, segments, segmentsFrom_code_quote hq]
    simp [consRun, hne]

/-- **A text falls into no other segments than its own.** -/
theorem Decomposes.eq_segments (h : Decomposes segs s) : segs = segments s := by
  induction h with
  | nil => rfl
  | unclosed h => rw [segments_open h]
  | closed h _ ih => rw [segments_closed_append h, ← ih]
  | run hne hrun hmax hs ih =>
    rw [segments_run_append hne hrun (hs.startsInCode_eq_false hmax), ← ih]

theorem Decomposes.exists_run_append (hrun : QuoteFree run) (hs : Decomposes segs s)
    (hmax : ∀ next rest, segs ≠ .code next :: rest) : ∃ segs', Decomposes segs' (run ++ s) := by
  by_cases hne : run = []
  · subst hne
    exact ⟨segs, hs⟩
  · exact ⟨.code run :: segs, .run hne hrun hmax hs⟩

theorem exists_decomposes (s : List α) : ∃ segs, Decomposes segs s := by
  induction segmented s with
  | run hrun =>
    have hempty := Decomposes.nil.exists_run_append hrun fun _ _ h => by cases h
    rwa [List.append_nil] at hempty
  | unclosed hrun hc hbody =>
    have hlit := Decomposes.unclosed ⟨_, _, rfl, hc, hbody⟩
    exact hlit.exists_run_append hrun fun _ _ h => by cases h
  | closed hrun hc hbody hd _ ih =>
    obtain ⟨segs, hsegs⟩ := ih
    have hlit := Decomposes.closed ⟨_, _, _, rfl, hc, hbody, hd⟩ hsegs
    rw [List.cons_append, List.append_assoc, List.singleton_append] at hlit
    exact hlit.exists_run_append hrun fun _ _ h => by cases h

theorem decomposes_segments (s : List α) : Decomposes (segments s) s := by
  obtain ⟨segs, hsegs⟩ := exists_decomposes s
  rwa [hsegs.eq_segments] at hsegs

/-! ### Offsets in literals -/

/-- The offset lies in a literal among the segments; both quotes of a literal belong to it. -/
def InLiteral (segs : List (Segment α)) (i : Nat) : Prop :=
  ∃ (front : List (Segment α)) (text : List α) (back : List (Segment α)),
    segs = front ++ .literal text :: back ∧ (front.flatMap Segment.symbols).length ≤ i ∧
      i < (front.flatMap Segment.symbols).length + text.length

omit [Symbol α] in
theorem inLiteral_literal {i : Nat} (h : i < text.length) (segs : List (Segment α)) :
    InLiteral (.literal text :: segs) i :=
  ⟨[], text, segs, rfl, Nat.zero_le i, by simpa using h⟩

omit [Symbol α] in
theorem not_inLiteral_run {i : Nat} (h : i < run.length) (segs : List (Segment α)) :
    ¬ InLiteral (.code run :: segs) i := by
  rintro ⟨front, text, back, hsegs, hle, -⟩
  cases front with
  | nil => cases hsegs
  | cons seg front =>
    obtain ⟨rfl, -⟩ := List.cons.inj hsegs
    simp only [List.flatMap_cons, List.length_append, Segment.symbols] at hle
    omega

omit [Symbol α] in
theorem inLiteral_cons_iff {seg : Segment α} {i : Nat} :
    InLiteral (seg :: segs) (seg.symbols.length + i) ↔ InLiteral segs i := by
  constructor
  · rintro ⟨front, text, back, hsegs, hle, hlt⟩
    cases front with
    | nil =>
      obtain ⟨rfl, -⟩ := List.cons.inj hsegs
      simp only [List.flatMap_nil, List.length_nil, Segment.symbols] at hlt
      omega
    | cons first front =>
      obtain ⟨rfl, rfl⟩ := List.cons.inj hsegs
      simp only [List.flatMap_cons, List.length_append] at hle hlt
      exact ⟨front, text, back, rfl, by omega, by omega⟩
  · rintro ⟨front, text, back, rfl, hle, hlt⟩
    refine ⟨seg :: front, text, back, rfl, ?_, ?_⟩ <;>
      simp only [List.flatMap_cons, List.length_append] <;> omega

variable {front back : List α} {c : α}

/-- Behind a quote, everything belongs to its literal as far as the next quote of its kind. -/
theorem holds_behind_quote {x : α} (hx : role x = .quote q)
    (hfront : ∀ d ∈ front, role d ≠ .quote q) (y : Role) :
    (Region.code.afterAll (x :: front)).holds y = true := by
  rw [Region.afterAll_cons, hx, Region.after, afterAll_literal_body hfront]
  rfl

theorem holds_of_openLiteral (h : OpenLiteral q (front ++ c :: back)) :
    (Region.code.afterAll front).holds (role c) = true := by
  obtain ⟨x, body, htext, hx, hbody⟩ := h
  cases front with
  | nil =>
    obtain ⟨rfl, -⟩ := List.cons.inj htext
    rw [Region.afterAll_nil, hx]
    rfl
  | cons y front =>
    obtain ⟨rfl, rfl⟩ := List.cons.inj htext
    exact holds_behind_quote hx (fun d hd => hbody d (List.mem_append_left _ hd)) _

theorem holds_of_closedLiteral (h : ClosedLiteral q (front ++ c :: back)) :
    (Region.code.afterAll front).holds (role c) = true := by
  obtain ⟨x, body, d, htext, hx, hbody, -⟩ := h
  cases front with
  | nil =>
    obtain ⟨rfl, -⟩ := List.cons.inj htext
    rw [Region.afterAll_nil, hx]
    rfl
  | cons y front =>
    rw [List.cons_append] at htext
    obtain ⟨rfl, hrest⟩ := List.cons_eq_cons.1 htext
    -- all symbols between the first quote and the place come before the last quote
    have hfront : front ++ (c :: back).dropLast = body := by
      have hdrop := congrArg List.dropLast hrest
      rwa [List.dropLast_append_of_ne_nil (List.cons_ne_nil c back), List.dropLast_concat] at hdrop
    exact holds_behind_quote hx (fun d hd => hbody d (by simp [← hfront, hd])) _

theorem afterAll_closedLiteral (h : ClosedLiteral q text) :
    Region.code.afterAll text = .code := by
  obtain ⟨c, body, d, rfl, hc, hbody, hd⟩ := h
  have hempty : QuoteFree ([] : List α) := List.forall_mem_nil _
  exact afterAll_closed hempty hc hbody hd []

omit [Symbol α] in
/-- A place in two texts, one behind the other, lies in the first or in the second. -/
theorem append_eq_append_cons (h : text ++ s = front ++ c :: back) :
    (∃ rest, text = front ++ c :: rest) ∨
      ∃ front', front = text ++ front' ∧ s = front' ++ c :: back := by
  obtain ⟨front', hfront, hs⟩ | ⟨rest, htext, hrest⟩ := List.append_eq_append_iff.1 h
  · exact .inr ⟨front', hfront, hs⟩
  · cases rest with
    | nil => exact .inr ⟨[], by simpa using htext.symm, hrest.symm⟩
    | cons d rest =>
      obtain ⟨rfl, -⟩ := List.cons.inj hrest
      exact .inl ⟨rest, htext⟩

omit [Symbol α] in
theorem exists_append_of_getElem? {i : Nat} (h : s[i]? = some c) :
    ∃ front back, s = front ++ c :: back ∧ front.length = i := by
  obtain ⟨hlt, rfl⟩ := List.getElem?_eq_some_iff.1 h
  refine ⟨s.take i, s.drop (i + 1), ?_, List.length_take_of_le hlt.le⟩
  rw [List.getElem_cons_drop, List.take_append_drop]

/-- **A scan takes a symbol for part of a literal exactly if it lies in one** of the segments. -/
theorem Decomposes.holds_iff (h : Decomposes segs s) (hs : s = front ++ c :: back) :
    (Region.code.afterAll front).holds (role c) = true ↔ InLiteral segs front.length := by
  induction h generalizing front with
  | nil => simp at hs
  | unclosed hopen =>
    subst hs
    exact iff_of_true (holds_of_openLiteral hopen) (inLiteral_literal (by simp) _)
  | @closed q text segs s hclosed _ ih =>
    obtain ⟨rest, rfl⟩ | ⟨front', rfl, hback⟩ := append_eq_append_cons hs
    · exact iff_of_true (holds_of_closedLiteral hclosed) (inLiteral_literal (by simp) _)
    · rw [Region.afterAll_append, afterAll_closedLiteral hclosed, List.length_append, ih hback]
      exact inLiteral_cons_iff.symm
  | @run run segs s hne hrun _ _ ih =>
    obtain ⟨rest, rfl⟩ | ⟨front', rfl, hback⟩ := append_eq_append_cons hs
    · have hc : (role c).isQuote = false := hrun c (by simp)
      refine iff_of_false ?_ (not_inLiteral_run (by simp) _)
      rw [Region.afterAll_of_quoteFree fun d hd => hrun d (by simp [hd]), Region.holds, hc]
      exact Bool.false_ne_true
    · rw [Region.afterAll_append, Region.afterAll_of_quoteFree hrun, List.length_append, ih hback]
      exact inLiteral_cons_iff.symm

theorem Decomposes.unclosed_iff (h : Decomposes segs s) :
    Scan.unclosed s = true ↔ ∃ text, (segs.filterMap Segment.literal?).getLast? = some text ∧
      ∀ q, ¬ ClosedLiteral q text := by
  induction h with
  | nil => simp [unclosed_eq]
  | @unclosed q text hopen =>
    refine iff_of_true ?_ ⟨text, rfl, hopen.not_closed⟩
    obtain ⟨c, body, rfl, hc, hbody⟩ := hopen
    rw [unclosed_eq_true_iff, Region.afterAll_cons, hc, Region.after, afterAll_literal_body hbody]
    exact Region.noConfusion
  | @closed q text segs s hclosed _ ih =>
    rw [unclosed_eq, Region.afterAll_append, afterAll_closedLiteral hclosed, ← unclosed_eq, ih]
    change _ ↔ ∃ last, (text :: segs.filterMap Segment.literal?).getLast? = some last ∧ _
    rw [List.getLast?_cons]
    cases hlast : (segs.filterMap Segment.literal?).getLast? with
    | none =>
      refine iff_of_false (by simp) ?_
      rintro ⟨text', htext, hnot⟩
      cases htext
      exact hnot q hclosed
    | some text' => rfl
  | run _ hrun _ _ ih =>
    rw [unclosed_append_of_quoteFree hrun, ih, List.filterMap_cons_none rfl]

/-! ### Cursors -/

namespace Cursor

/-- The cursor after the given number of moves over a text. -/
def moved (s : List α) : Nat → Cursor α
  | 0 => .start s
  | n + 1 => (moved s n).next

/-- The cursor has moved over `front` and has `back` ahead. -/
structure StandsBetween (cursor : Cursor α) (front back : List α) : Prop where
  moves : cursor.moves = front.length
  ahead : cursor.ahead = back
  flags : cursor.flags.Follow (Region.code.afterAll front)

theorem standsBetween_start (s : List α) : (Cursor.start s).StandsBetween [] s :=
  ⟨rfl, rfl, Flags.follow_start⟩

theorem StandsBetween.next {cursor : Cursor α} (h : cursor.StandsBetween front (c :: back)) :
    cursor.next.StandsBetween (front ++ [c]) back where
  moves := by simp [Cursor.next, h.ahead, h.moves]
  ahead := by simp [Cursor.next, h.ahead]
  flags := by
    rw [Region.afterAll_append]
    simpa [Cursor.next, h.ahead] using h.flags.next (role c)

/-- At the symbol that it has just moved over, a cursor knows whether it belongs to a literal. -/
theorem StandsBetween.at_next {cursor : Cursor α} (h : cursor.StandsBetween front (c :: back)) :
    cursor.next.current = some c ∧ cursor.next.pos = front.length ∧
      cursor.next.inLiteral = (Region.code.afterAll front).holds (role c) := by
  simp [Cursor.next, Cursor.inLiteral, pos, h.ahead, h.moves, h.flags.inLiteral]

theorem moved_standsBetween (front back : List α) :
    (moved (front ++ back) front.length).StandsBetween front back := by
  induction front using List.reverseRecOn generalizing back with
  | nil => exact standsBetween_start back
  | append_singleton front c ih =>
    rw [List.append_assoc, List.length_append]
    exact (ih (c :: back)).next

end Cursor

/-- **A scan recognises the literals of the grammar.**  Every text falls into segments in one way;
a cursor that moves over the text tells at each symbol whether it belongs to a literal among them,
and the text is unclosed exactly if the last of these literals lacks its closing quote. -/
theorem literals_recognised (s : List α) :
    (∃! segs, Decomposes segs s) ∧ ∀ segs, Decomposes segs s →
      (∀ i c, s[i]? = some c →
        (Cursor.moved s (i + 1)).current = some c ∧ (Cursor.moved s (i + 1)).pos = i ∧
          ((Cursor.moved s (i + 1)).inLiteral = true ↔ InLiteral segs i)) ∧
      (Cursor.moved s s.length).unterminated = unclosed s ∧
      (unclosed s = true ↔ ∃ text, (segs.filterMap Segment.literal?).getLast? = some text ∧
        ∀ q, ¬ ClosedLiteral q text) := by
  refine ⟨⟨segments s, decomposes_segments s, fun segs h => h.eq_segments⟩, ?_⟩
  intro segs h
  refine ⟨fun i c hi => ?_, ?_, h.unclosed_iff⟩
  · obtain ⟨front, back, hs, rfl⟩ := exists_append_of_getElem? hi
    have hstands := Cursor.moved_standsBetween front (c :: back)
    rw [← hs] at hstands
    obtain ⟨hcurrent, hpos, hlit⟩ := hstands.at_next
    exact ⟨hcurrent, hpos, by rw [← h.holds_iff hs, ← hlit]; rfl⟩
  · have hend := (Cursor.moved_standsBetween s []).flags.unterminated
    rw [List.append_nil] at hend
    rw [Cursor.unterminated, hend, unclosed_eq]

/-- Mixed quotes, literals without code between them, and a last one that is not closed. -/
example : segments "n <- \"it's\"\"\" + 'x".toList =
    [.code "n <- ".toList, .literal "\"it's\"".toList, .literal "\"\"".toList, .code " + ".toList,
      .literal "'x".toList] := by decide

/-! ### Mapped code -/

/-- **Mapped code run by run, once and several times.**  A map that makes nothing of nothing
replaces each maximal run of code and copies the literals, so the identity changes nothing.  If it
adds no quotes, another one behind it finds the same literals again, and both are one pass of their
composition; so is a chain of such maps. -/
theorem mapCode_laws {f : List α → List α} (hf : f [] = []) (s : List α) :
    (∃ segs, Decomposes segs s ∧ mapCode f s = segs.flatMap (Segment.mapCode f)) ∧
      mapCode id s = s ∧
      (∀ g : List α → List α, g [] = [] → (∀ run, QuoteFree run → QuoteFree (f run)) →
        mapCode g (mapCode f s) = mapCode (g ∘ f) s) ∧
      ∀ fs : List (List α → List α), (∀ f ∈ fs, CodeMap f) →
        inTurn (fs.map mapCode) s = mapCode (inTurn fs) s := by
  refine ⟨⟨segments s, decomposes_segments s, mapCode_eq_flatMap hf s⟩, mapCode_id s, ?_, ?_⟩
  · intro g hg hquotes
    exact mapCode_mapCode hg hf hquotes s
  · intro fs hfs
    exact inTurn_map_mapCode hfs s

/-- Code that is dropped between literals of both kinds: what is left is scanned as before. -/
theorem mapCode_laws_dropping_code :
    let s := "a + \"b'\" + 'c\"'\"d".toList
    let f : List Char → List Char := fun _ => []
    f [] = [] ∧ (∀ run, QuoteFree run → QuoteFree (f run)) ∧
      mapCode f s = "\"b'\"'c\"'\"d".toList ∧
      mapCode List.reverse (mapCode f s) = mapCode (List.reverse ∘ f) s := by
  intro s f
  have hmapped : mapCode f s = "\"b'\"'c\"'\"d".toList := by decide +revert +kernel
  have hquotes : ∀ run, QuoteFree run → QuoteFree (f run) := fun _ _ => List.forall_mem_nil _
  obtain ⟨-, -, hpair, -⟩ := mapCode_laws (f := f) rfl s
  exact ⟨rfl, hquotes, hmapped, hpair List.reverse rfl hquotes⟩

end Scan

end Pseudocode
