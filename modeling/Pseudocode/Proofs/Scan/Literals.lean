import Pseudocode.Proofs.Scan.Flags
import Pseudocode.Proofs.Scan.Parts

/-!
# Literals

The literals of a text are the segments of it that are not code.  A text whose scan ends in code can
be put in front of another one without touching its literals, and code without quotes can be put
anywhere in code.

* `flatMap_symbols_segments` : the segments make up the text.
* `literals_append` : the literals of two texts, the first of which ends in code.
* `exists_literal_of_region` : what follows a place in a literal belongs to that literal as far as
  the next quote.
* `literals_mapCode` : **mapping code keeps the literals.**
-/

namespace Pseudocode

namespace Scan

variable {α : Type} [Symbol α]

/-- The text of a literal, none for code. -/
def Segment.literal? : Segment α → Option (List α)
  | .code _ => none
  | .literal text => some text

/-- The literals of a text, in order, each with its quotes. -/
def literals (s : List α) : List (List α) := (segments s).filterMap Segment.literal?

/-- No quote stands in the text. -/
def QuoteFree (s : List α) : Prop := ∀ c ∈ s, (role c).isQuote = false

instance (s : List α) : Decidable (QuoteFree s) :=
  inferInstanceAs (Decidable (∀ c ∈ s, (role c).isQuote = false))

theorem QuoteFree.append {s t : List α} (hs : QuoteFree s) (ht : QuoteFree t) :
    QuoteFree (s ++ t) := List.forall_mem_append.2 ⟨hs, ht⟩

theorem QuoteFree.mono {s t : List α} (ht : QuoteFree t) (h : s ⊆ t) : QuoteFree s :=
  fun c hc => ht c (h hc)

theorem Region.afterAll_of_quoteFree {s : List α} (h : QuoteFree s) (r : Region) :
    r.afterAll s = r := by
  induction s generalizing r with
  | nil => rfl
  | cons c cs ih =>
    obtain ⟨hc, hcs⟩ := List.forall_mem_cons.1 h
    rw [Region.afterAll_cons, Region.after_of_isQuote_eq_false hc, ih hcs]

/-! ### Segments -/

variable {held cs : List α} {c : α} {q : Quote}

/-- **The segments make up the text.** -/
theorem flatMap_symbols_segmentsFrom (r : Region) (held s : List α) :
    (segmentsFrom r held s).flatMap Segment.symbols = held.reverse ++ s := by
  induction s generalizing r held with
  | nil =>
    cases r with
    | code =>
      rw [segmentsFrom, flatMap_consRun _ rfl]
      simp [Segment.symbols]
    | literal q => simp [segmentsFrom, Segment.symbols]
  | cons c cs ih =>
    cases r with
    | code =>
      cases h : (role c).isQuote with
      | true =>
        obtain ⟨q, hq⟩ := Role.isQuote_iff.1 h
        rw [segmentsFrom_code_quote hq, flatMap_consRun _ rfl, ih]
        simp [Segment.symbols]
      | false =>
        rw [segmentsFrom_code_plain h, ih]
        simp
    | literal q =>
      by_cases h : role c = .quote q
      · rw [segmentsFrom_literal_close h, List.flatMap_cons, ih]
        simp [Segment.symbols]
      · rw [segmentsFrom_literal_inner h, ih]
        simp

theorem flatMap_symbols_segments (s : List α) : (segments s).flatMap Segment.symbols = s :=
  flatMap_symbols_segmentsFrom .code [] s

/-! ### Literals branch by branch -/

/-- The literals of a text that is scanned from the given region; `held` are the symbols of the
segment that is being read, last one first. -/
def literalsFrom (r : Region) (held s : List α) : List (List α) :=
  (segmentsFrom r held s).filterMap Segment.literal?

omit [Symbol α] in
theorem filterMap_literal?_consRun (run : List α) (rest : List (Segment α)) :
    (consRun run rest).filterMap Segment.literal? = rest.filterMap Segment.literal? := by
  cases run <;> rfl

theorem literalsFrom_code_nil : literalsFrom .code held [] = [] :=
  filterMap_literal?_consRun held []

theorem literalsFrom_literal_nil : literalsFrom (.literal q) held [] = [held.reverse] := rfl

theorem literalsFrom_code_quote (h : role c = .quote q) :
    literalsFrom .code held (c :: cs) = literalsFrom (.literal q) [c] cs := by
  rw [literalsFrom, segmentsFrom_code_quote h, filterMap_literal?_consRun, literalsFrom]

theorem literalsFrom_code_plain (h : (role c).isQuote = false) :
    literalsFrom .code held (c :: cs) = literalsFrom .code (c :: held) cs := by
  rw [literalsFrom, segmentsFrom_code_plain h, literalsFrom]

theorem literalsFrom_literal_close (h : role c = .quote q) :
    literalsFrom (.literal q) held (c :: cs) =
      (c :: held).reverse :: literalsFrom .code [] cs := by
  rw [literalsFrom, segmentsFrom_literal_close h]
  rfl

theorem literalsFrom_literal_inner (h : role c ≠ .quote q) :
    literalsFrom (.literal q) held (c :: cs) = literalsFrom (.literal q) (c :: held) cs := by
  rw [literalsFrom, segmentsFrom_literal_inner h, literalsFrom]

/-- The code before a place has no bearing on the literals after it. -/
theorem literalsFrom_code (held s : List α) : literalsFrom .code held s = literals s := by
  change _ = literalsFrom .code [] s
  induction s generalizing held with
  | nil => rw [literalsFrom_code_nil, literalsFrom_code_nil]
  | cons c cs ih =>
    cases h : (role c).isQuote with
    | true =>
      obtain ⟨q, hq⟩ := Role.isQuote_iff.1 h
      rw [literalsFrom_code_quote hq, literalsFrom_code_quote hq]
    | false =>
      rw [literalsFrom_code_plain h, literalsFrom_code_plain h, ih (c :: held), ih [c]]

theorem literals_cons_of_quoteFree (h : (role c).isQuote = false) :
    literals (c :: cs) = literals cs := by
  rw [← literalsFrom_code [] (c :: cs), literalsFrom_code_plain h, literalsFrom_code]

theorem literals_append_of_quoteFree {s : List α} (h : QuoteFree s) (t : List α) :
    literals (s ++ t) = literals t := by
  induction s with
  | nil => rfl
  | cons c cs ih =>
    obtain ⟨hc, hcs⟩ := List.forall_mem_cons.1 h
    rw [List.cons_append, literals_cons_of_quoteFree hc, ih hcs]

theorem literals_of_quoteFree {s : List α} (h : QuoteFree s) : literals s = [] := by
  have hs := literals_append_of_quoteFree h []
  rwa [List.append_nil] at hs

theorem literalsFrom_append {r : Region} {held s : List α} (h : r.afterAll s = .code)
    (t : List α) : literalsFrom r held (s ++ t) = literalsFrom r held s ++ literals t := by
  induction s generalizing r held with
  | nil =>
    obtain rfl : r = .code := h
    rw [List.nil_append, literalsFrom_code, literalsFrom_code_nil, List.nil_append]
  | cons c cs ih =>
    rw [Region.afterAll_cons] at h
    rw [List.cons_append]
    cases r with
    | code =>
      cases hc : (role c).isQuote with
      | true =>
        obtain ⟨q, hq⟩ := Role.isQuote_iff.1 hc
        rw [literalsFrom_code_quote hq, literalsFrom_code_quote hq]
        exact ih (by rwa [hq] at h)
      | false =>
        rw [literalsFrom_code_plain hc, literalsFrom_code_plain hc]
        exact ih (by rwa [Region.after_of_isQuote_eq_false hc] at h)
    | literal q =>
      by_cases hc : role c = .quote q
      · rw [literalsFrom_literal_close hc, literalsFrom_literal_close hc, List.cons_append]
        rw [hc, Region.after, if_pos rfl] at h
        rw [ih h]
      · rw [literalsFrom_literal_inner hc, literalsFrom_literal_inner hc]
        exact ih (by rwa [Region.literal_after_of_ne hc] at h)

/-- **The literals of two texts, the first of which ends in code.** -/
theorem literals_append {s : List α} (h : Region.code.afterAll s = .code) (t : List α) :
    literals (s ++ t) = literals s ++ literals t :=
  literalsFrom_append h t

/-! ### Places in literals -/

/-- A literal that is being read takes in what follows, as far as the next quote. -/
theorem exists_literal_of_held (held : List α) {mid : List α} (hmid : QuoteFree mid)
    (rest : List α) :
    ∃ text ∈ literalsFrom (.literal q) held (mid ++ rest), ∃ back,
      text = held.reverse ++ (mid ++ back) := by
  induction mid generalizing held with
  | nil =>
    induction rest generalizing held with
    | nil => exact ⟨held.reverse, by simp [literalsFrom_literal_nil], [], by simp⟩
    | cons c cs ih =>
      rw [List.nil_append]
      by_cases hc : role c = .quote q
      · rw [literalsFrom_literal_close hc]
        exact ⟨_, List.mem_cons_self, [c], by simp⟩
      · rw [literalsFrom_literal_inner hc]
        obtain ⟨text, htext, back, rfl⟩ := ih (c :: held)
        exact ⟨_, htext, c :: back, by simp⟩
  | cons c mid ih =>
    obtain ⟨hc, hmid⟩ := List.forall_mem_cons.1 hmid
    have hq : role c ≠ .quote q := by
      intro h
      rw [h] at hc
      cases hc
    rw [List.cons_append, literalsFrom_literal_inner hq]
    obtain ⟨text, htext, back, rfl⟩ := ih (c :: held) hmid
    exact ⟨_, htext, back, by simp⟩

theorem exists_literalsFrom_of_region {r : Region} (held : List α) {front : List α}
    (hr : r.afterAll front = .literal q) {mid : List α} (hmid : QuoteFree mid) (rest : List α) :
    ∃ text ∈ literalsFrom r held (front ++ (mid ++ rest)), ∃ start back,
      start.getLast? = (held.reverse ++ front).getLast? ∧ text = start ++ (mid ++ back) := by
  induction front generalizing r held with
  | nil =>
    obtain rfl : r = .literal q := hr
    obtain ⟨text, htext, back, rfl⟩ := exists_literal_of_held held hmid rest
    exact ⟨_, htext, held.reverse, back, by simp, rfl⟩
  | cons c cs ih =>
    have hlast : ((c :: held).reverse ++ cs).getLast? = (held.reverse ++ c :: cs).getLast? := by
      simp
    rw [Region.afterAll_cons] at hr
    rw [List.cons_append, ← hlast]
    cases r with
    | code =>
      cases hc : (role c).isQuote with
      | true =>
        obtain ⟨p, hp⟩ := Role.isQuote_iff.1 hc
        rw [literalsFrom_code_quote hp]
        obtain ⟨text, htext, start, back, hstart, rfl⟩ := ih [c] (by rwa [hp] at hr)
        exact ⟨_, htext, start, back, by simp [hstart, List.getLast?_cons], rfl⟩
      | false =>
        rw [literalsFrom_code_plain hc]
        exact ih (c :: held) (by rwa [Region.after_of_isQuote_eq_false hc] at hr)
    | literal p =>
      by_cases hc : role c = .quote p
      · -- the closed literal is another one; its text is held on for the last symbol only
        rw [literalsFrom_literal_close hc]
        rw [hc, Region.after, if_pos rfl] at hr
        obtain ⟨text, htext, h⟩ := ih (c :: held) hr
        rw [literalsFrom_code, ← literalsFrom_code []] at htext
        exact ⟨text, List.mem_cons_of_mem _ htext, h⟩
      · rw [literalsFrom_literal_inner hc]
        exact ih (c :: held) (by rwa [Region.literal_after_of_ne hc] at hr)

/-- **What follows a place in a literal belongs to that literal as far as the next quote,** and so
does the symbol before the place. -/
theorem exists_literal_of_region {front : List α} (hr : Region.code.afterAll front = .literal q)
    {mid : List α} (hmid : QuoteFree mid) (rest : List α) :
    ∃ text ∈ literals (front ++ (mid ++ rest)), ∃ start back,
      start.getLast? = front.getLast? ∧ text = start ++ (mid ++ back) :=
  exists_literalsFrom_of_region [] hr hmid rest

/-! ### Mapped code -/

/-- The symbols that are held while a segment is read are the front of the text as far as its
literals are concerned. -/
def Holds (r : Region) (held : List α) : Prop :=
  ∀ t, literals (held.reverse ++ t) = literalsFrom r held t

theorem literals_flatMap_mapCode {f : List α → List α}
    (hf : ∀ run, QuoteFree run → QuoteFree (f run)) (hnil : f [] = []) {r : Region}
    {held : List α} (hheld : Holds r held) (hrun : r = .code → QuoteFree held) (s : List α) :
    literals ((segmentsFrom r held s).flatMap (Segment.mapCode f)) = literalsFrom r held s := by
  have hmapped : ∀ run : List α, QuoteFree run → QuoteFree (f run.reverse) := fun run h =>
    hf _ fun c hc => h c (List.mem_reverse.1 hc)
  induction s generalizing r held with
  | nil =>
    cases r with
    | code =>
      rw [segmentsFrom, flatMap_consRun _ hnil, literalsFrom_code_nil]
      exact literals_append_of_quoteFree (hmapped held (hrun rfl)) _
    | literal q =>
      have h := hheld []
      rw [List.append_nil] at h
      simpa [segmentsFrom, Segment.mapCode] using h
  | cons c cs ih =>
    cases r with
    | code =>
      cases hc : (role c).isQuote with
      | true =>
        obtain ⟨q, hq⟩ := Role.isQuote_iff.1 hc
        rw [segmentsFrom_code_quote hq, flatMap_consRun _ hnil, literalsFrom_code_quote hq,
          Segment.mapCode, literals_append_of_quoteFree (hmapped held (hrun rfl))]
        refine ih (fun t => ?_) (fun h => by cases h)
        rw [← literalsFrom_code [], List.reverse_singleton, List.singleton_append,
          literalsFrom_code_quote hq]
      | false =>
        have hcons : QuoteFree (c :: held) := List.forall_mem_cons.2 ⟨hc, hrun rfl⟩
        rw [segmentsFrom_code_plain hc, literalsFrom_code_plain hc]
        refine ih (fun t => ?_) fun _ => hcons
        rw [literalsFrom_code]
        exact literals_append_of_quoteFree (fun a ha => hcons a (List.mem_reverse.1 ha)) t
    | literal q =>
      by_cases hc : role c = .quote q
      · have hrest : literals ((segmentsFrom .code [] cs).flatMap (Segment.mapCode f)) =
            literalsFrom .code [] cs :=
          ih (fun t => (literalsFrom_code [] t).symm) fun _ => List.forall_mem_nil _
        rw [segmentsFrom_literal_close hc, literalsFrom_literal_close hc, List.flatMap_cons,
          Segment.mapCode, List.reverse_cons, List.append_assoc, hheld, List.singleton_append,
          literalsFrom_literal_close hc, literalsFrom_code, hrest, List.reverse_cons]
      · rw [segmentsFrom_literal_inner hc, literalsFrom_literal_inner hc]
        refine ih (fun t => ?_) (fun h => by cases h)
        rw [List.reverse_cons, List.append_assoc, hheld, List.singleton_append,
          literalsFrom_literal_inner hc]

/-- **Mapping code keeps the literals,** if the map adds no quotes. -/
theorem literals_mapCode {f : List α → List α} (hf : ∀ run, QuoteFree run → QuoteFree (f run))
    (hnil : f [] = []) (s : List α) : literals (mapCode f s) = literals s := by
  have hfront : (if startsInCode s then [] else f []) = [] := by rw [hnil, ite_self]
  have hheld : Holds .code ([] : List α) := fun t => (literalsFrom_code [] t).symm
  rw [mapCode_eq, hfront, List.nil_append]
  exact literals_flatMap_mapCode hf hnil hheld (fun _ => List.forall_mem_nil _) s

end Scan

end Pseudocode
