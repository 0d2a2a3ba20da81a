import Pseudocode.Proofs.Scan.Places

/-!
# Texts segment by segment

A text is a run of code, or a run of code, a literal and the rest of the text.  What is mapped in
code is mapped run by run, so that facts about whole texts follow from facts about runs.

* `segmented` : **every text falls into runs and literals,** an induction over its literals.
* `mapCode_run`, `mapCode_unclosed`, `mapCode_closed` : mapped code, segment by segment.
* `mapCode_mapCode`, `inTurn_map_mapCode` : code that is mapped several times is mapped once by the
  composition.
-/

namespace Pseudocode

namespace Scan

variable {α : Type} [Symbol α]

/-- A text, segment by segment: a run of code, then a literal and the rest of the text, or a last
literal that is not closed. -/
inductive Segmented : List α → Prop
  | run {run : List α} (hrun : QuoteFree run) : Segmented run
  | unclosed {run body : List α} {c : α} {q : Quote} (hrun : QuoteFree run)
    (hc : role c = .quote q) (hbody : ∀ d ∈ body, role d ≠ .quote q) : Segmented (run ++ c :: body)
  | closed {run body rest : List α} {c d : α} {q : Quote} (hrun : QuoteFree run)
    (hc : role c = .quote q) (hbody : ∀ d ∈ body, role d ≠ .quote q) (hd : role d = .quote q)
    (hrest : Segmented rest) : Segmented (run ++ c :: (body ++ d :: rest))

omit [Symbol α] in
theorem exists_cut_before (p : α → Bool) (s : List α) :
    (∀ c ∈ s, p c = false) ∨
      ∃ front c rest, s = front ++ c :: rest ∧ (∀ d ∈ front, p d = false) ∧ p c = true := by
  induction s with
  | nil => exact .inl (List.forall_mem_nil _)
  | cons c cs ih =>
    cases hc : p c with
    | true => exact .inr ⟨[], c, cs, rfl, List.forall_mem_nil _, hc⟩
    | false =>
      obtain hnone | ⟨front, d, rest, rfl, hfront, hd⟩ := ih
      · exact .inl (List.forall_mem_cons.2 ⟨hc, hnone⟩)
      · exact .inr ⟨c :: front, d, rest, rfl, List.forall_mem_cons.2 ⟨hc, hfront⟩, hd⟩

/-- **Every text falls into runs and literals.** -/
theorem segmented (s : List α) : Segmented s := by
  -- what follows a literal is shorter than the text, but no part of its recursion
  induction hn : s.length using Nat.strongRecOn generalizing s with
  | ind n ih =>
    subst hn
    obtain hrun | ⟨run, c, tail, rfl, hrun, hc⟩ := exists_cut_before (fun c => (role c).isQuote) s
    · exact .run hrun
    · obtain ⟨q, hq⟩ := Role.isQuote_iff.1 hc
      obtain hbody | ⟨body, d, rest, rfl, hbody, hd⟩ :=
        exists_cut_before (fun d => decide (role d = .quote q)) tail
      · exact .unclosed hrun hq fun d hd => of_decide_eq_false (hbody d hd)
      · have hshorter : rest.length < (run ++ c :: (body ++ d :: rest)).length := by
          simp only [List.length_append, List.length_cons]
          omega
        exact .closed hrun hq (fun d hd => of_decide_eq_false (hbody d hd)) (of_decide_eq_true hd)
          (ih _ hshorter rest rfl)

/-! ### Regions -/

variable {run body rest : List α} {c d : α} {q : Quote}

theorem afterAll_literal_body (h : ∀ d ∈ body, role d ≠ .quote q) :
    (Region.literal q).afterAll body = .literal q := by
  induction body with
  | nil => rfl
  | cons c cs ih =>
    obtain ⟨hc, hcs⟩ := List.forall_mem_cons.1 h
    rw [Region.afterAll_cons, Region.literal_after_of_ne hc, ih hcs]

theorem afterAll_closed (hrun : QuoteFree run) (hc : role c = .quote q)
    (hbody : ∀ d ∈ body, role d ≠ .quote q) (hd : role d = .quote q) (rest : List α) :
    Region.code.afterAll (run ++ c :: (body ++ d :: rest)) = Region.code.afterAll rest := by
  have hopen : Region.code.after (role c) = .literal q := by rw [hc]; rfl
  have hclose : (Region.literal q).after (role d) = .code := by rw [hd]; exact if_pos rfl
  rw [Region.afterAll_append, Region.afterAll_of_quoteFree hrun, Region.afterAll_cons, hopen,
    Region.afterAll_append, afterAll_literal_body hbody, Region.afterAll_cons, hclose]

theorem unclosed_closed (hrun : QuoteFree run) (hc : role c = .quote q)
    (hbody : ∀ d ∈ body, role d ≠ .quote q) (hd : role d = .quote q) (front : List α) :
    unclosed (run ++ c :: (body ++ d :: front)) = unclosed front := by
  rw [unclosed_eq, afterAll_closed hrun hc hbody hd, unclosed_eq]

/-- What stands in literals only does so in a run of code and in what follows a literal. -/
theorem OnlyInLiterals.closed {sub : List α} (hrun : QuoteFree run) (hc : role c = .quote q)
    (hbody : ∀ d ∈ body, role d ≠ .quote q) (hd : role d = .quote q)
    (h : OnlyInLiterals sub (run ++ c :: (body ++ d :: rest))) : OnlyInLiterals sub rest := by
  intro front back hrest
  rw [← unclosed_closed hrun hc hbody hd front]
  exact h _ back (by simp [hrest])

theorem OnlyInLiterals.not_infix {sub : List α} (hrun : QuoteFree run)
    (h : OnlyInLiterals sub run) : ¬ sub <:+: run := by
  rintro ⟨front, back, heq⟩
  have hfront : QuoteFree front := hrun.mono fun c hc => by simp [← heq, hc]
  have hopen := h front back (by rw [← heq, List.append_assoc])
  rw [unclosed_eq_true_iff] at hopen
  exact hopen (Region.afterAll_of_quoteFree hfront .code)

/-! ### Mapped code -/

variable {f g : List α → List α}

theorem segmentsFrom_run (hrun : QuoteFree run) (held s : List α) :
    segmentsFrom .code held (run ++ s) = segmentsFrom .code (run.reverse ++ held) s := by
  induction run generalizing held with
  | nil => rfl
  | cons c cs ih =>
    obtain ⟨hc, hcs⟩ := List.forall_mem_cons.1 hrun
    rw [List.cons_append, segmentsFrom_code_plain hc, ih hcs, List.reverse_cons, List.append_assoc,
      List.singleton_append]

theorem segmentsFrom_body (hbody : ∀ d ∈ body, role d ≠ .quote q) (held s : List α) :
    segmentsFrom (.literal q) held (body ++ s) =
      segmentsFrom (.literal q) (body.reverse ++ held) s := by
  induction body generalizing held with
  | nil => rfl
  | cons c cs ih =>
    obtain ⟨hc, hcs⟩ := List.forall_mem_cons.1 hbody
    rw [List.cons_append, segmentsFrom_literal_inner hc, ih hcs, List.reverse_cons,
      List.append_assoc, List.singleton_append]

/-- An empty run at the front does not count, if it is mapped to nothing. -/
theorem mapCode_eq_flatMap (hnil : f [] = []) (s : List α) :
    mapCode f s = (segments s).flatMap (Segment.mapCode f) := by
  rw [mapCode_eq, hnil, ite_self, List.nil_append]

theorem mapCode_run (hnil : f [] = []) (hrun : QuoteFree run) : mapCode f run = f run := by
  have hsegments := segmentsFrom_run hrun [] []
  rw [List.append_nil, List.append_nil] at hsegments
  rw [mapCode_eq_flatMap hnil, segments, hsegments, segmentsFrom, flatMap_consRun _ hnil]
  simp [Segment.mapCode]

theorem mapCode_quote (hnil : f [] = []) (hrun : QuoteFree run) (hc : role c = .quote q)
    (s : List α) :
    mapCode f (run ++ c :: s) =
      f run ++ (segmentsFrom (.literal q) [c] s).flatMap (Segment.mapCode f) := by
  rw [mapCode_eq_flatMap hnil, segments, segmentsFrom_run hrun, List.append_nil,
    segmentsFrom_code_quote hc, flatMap_consRun _ hnil, List.reverse_reverse]
  rfl

theorem mapCode_unclosed (hnil : f [] = []) (hrun : QuoteFree run) (hc : role c = .quote q)
    (hbody : ∀ d ∈ body, role d ≠ .quote q) :
    mapCode f (run ++ c :: body) = f run ++ c :: body := by
  have hsegments := segmentsFrom_body hbody [c] []
  rw [List.append_nil] at hsegments
  rw [mapCode_quote hnil hrun hc, hsegments, segmentsFrom]
  simp [Segment.mapCode]

theorem mapCode_closed (hnil : f [] = []) (hrun : QuoteFree run) (hc : role c = .quote q)
    (hbody : ∀ d ∈ body, role d ≠ .quote q) (hd : role d = .quote q) (rest : List α) :
    mapCode f (run ++ c :: (body ++ d :: rest)) = f run ++ c :: (body ++ d :: mapCode f rest) := by
  rw [mapCode_quote hnil hrun hc, segmentsFrom_body hbody, segmentsFrom_literal_close hd,
    List.flatMap_cons, mapCode_eq_flatMap hnil, segments]
  simp [Segment.mapCode]

theorem mapCode_id (s : List α) : mapCode id s = s := by
  induction segmented s with
  | run hrun => exact mapCode_run rfl hrun
  | unclosed hrun hc hbody => exact mapCode_unclosed rfl hrun hc hbody
  | closed hrun hc hbody hd _ ih =>
    rw [mapCode_closed rfl hrun hc hbody hd, ih]
    rfl

/-- **Code that is mapped twice is mapped once by the composition,** if the first map adds no
quotes. -/
theorem mapCode_mapCode (hf : f [] = []) (hg : g [] = [])
    (hquotes : ∀ run, QuoteFree run → QuoteFree (g run)) (s : List α) :
    mapCode f (mapCode g s) = mapCode (f ∘ g) s := by
  have hfg : (f ∘ g) [] = [] := by rw [Function.comp_apply, hg, hf]
  induction segmented s with
  | run hrun => rw [mapCode_run hg hrun, mapCode_run hf (hquotes _ hrun), mapCode_run hfg hrun]; rfl
  | unclosed hrun hc hbody =>
    rw [mapCode_unclosed hg hrun hc hbody, mapCode_unclosed hf (hquotes _ hrun) hc hbody,
      mapCode_unclosed hfg hrun hc hbody]
    rfl
  | closed hrun hc hbody hd _ ih =>
    rw [mapCode_closed hg hrun hc hbody hd, mapCode_closed hf (hquotes _ hrun) hc hbody hd,
      mapCode_closed hfg hrun hc hbody hd, ih]
    rfl

/-- The map makes nothing of nothing and adds no quotes. -/
structure CodeMap (f : List α → List α) : Prop where
  nil : f [] = []
  quoteFree : ∀ run, QuoteFree run → QuoteFree (f run)

/-- Applies maps one after the other. -/
def inTurn (fs : List (List α → List α)) (s : List α) : List α := fs.foldl (fun t f => f t) s

theorem inTurn_nil {fs : List (List α → List α)} (h : ∀ f ∈ fs, CodeMap f) : inTurn fs [] = [] := by
  induction fs with
  | nil => rfl
  | cons f fs ih =>
    obtain ⟨hf, hfs⟩ := List.forall_mem_cons.1 h
    rw [inTurn, List.foldl_cons, hf.nil]
    exact ih hfs

/-- **A chain of maps of code is one pass of their composition.** -/
theorem inTurn_map_mapCode {fs : List (List α → List α)} (h : ∀ f ∈ fs, CodeMap f) (s : List α) :
    inTurn (fs.map mapCode) s = mapCode (inTurn fs) s := by
  induction fs generalizing s with
  | nil => exact (mapCode_id s).symm
  | cons f fs ih =>
    obtain ⟨hf, hfs⟩ := List.forall_mem_cons.1 h
    calc inTurn (fs.map mapCode) (mapCode f s)
      _ = mapCode (inTurn fs) (mapCode f s) := ih hfs _
      _ = mapCode (inTurn fs ∘ f) s := mapCode_mapCode (inTurn_nil hfs) hf.nil hf.quoteFree s

end Scan

end Pseudocode
