import Pseudocode.Proofs.Scan.Literals

/-!
# Brackets outside literals

The brackets of a text outside its literals form a word, and the text is well nested if that word
belongs to the grammar `Nested`: every bracket is closed by one of its own shape, and what stands
between the two is well nested itself.

* `brackets` : the brackets of a text outside its literals.
* `nested_iff_reads` : the words of the grammar are those that a stack of open brackets reads from
  empty to empty.
* `bracketsFrom_congr` : the brackets depend on the quotes and brackets of a text only.
* `Region.afterAll_injective` : **two scans that stand in different regions never meet.**
-/

namespace Pseudocode

namespace Scan

variable {α : Type} [Symbol α]

/-- The symbol opens or closes a bracket. -/
def Role.isBracket (x : Role) : Bool := x.isOpening || x.isClosing

/-- The symbol, read in the region, as a word of brackets: empty if it is no bracket or belongs to
a literal. -/
def bracketOf (r : Region) (x : Role) : List Role :=
  if !r.holds x && x.isBracket then [x] else []

/-- The brackets of a text outside its literals, in order, where the scan starts in the given
region. -/
def bracketsFrom : Region → List α → List Role
  | _, [] => []
  | r, c :: cs => bracketOf r (role c) ++ bracketsFrom (r.after (role c)) cs

/-- The brackets of a text outside its literals, in order. -/
def brackets (s : List α) : List Role := bracketsFrom .code s

/-- The well-nested words of brackets. -/
inductive Nested : List Role → Prop
  | nil : Nested []
  | pair (b : Bracket) {v w : List Role} (hv : Nested v) (hw : Nested w) :
    Nested (.opening b :: (v ++ .closing b :: w))

/-! ### Reading with a stack -/

/-- The open brackets after a symbol, innermost first; none if it closes a bracket that is not the
innermost one. -/
def openedAfter : List Bracket → Role → Option (List Bracket)
  | opened, .opening b => some (b :: opened)
  | [], .closing _ => none
  | top :: opened, .closing b => if b = top then some opened else none
  | opened, _ => some opened

/-- Reading the word with the brackets `opened` open leaves the brackets `left` open. -/
def Reads (opened : List Bracket) (w : List Role) (left : List Bracket) : Prop :=
  w.foldlM openedAfter opened = some left

instance (opened : List Bracket) (w : List Role) (left : List Bracket) :
    Decidable (Reads opened w left) :=
  inferInstanceAs (Decidable (w.foldlM openedAfter opened = some left))

variable {opened left : List Bracket} {v w : List Role}

theorem reads_nil (opened : List Bracket) : Reads opened [] opened := rfl

theorem reads_cons_iff {x : Role} :
    Reads opened (x :: w) left ↔ ∃ mid, openedAfter opened x = some mid ∧ Reads mid w left := by
  rw [Reads, List.foldlM_cons]
  exact Option.bind_eq_some_iff

theorem reads_append_iff :
    Reads opened (v ++ w) left ↔ ∃ mid, Reads opened v mid ∧ Reads mid w left := by
  rw [Reads, List.foldlM_append]
  exact Option.bind_eq_some_iff

theorem Reads.append {mid : List Bracket} (hv : Reads opened v mid) (hw : Reads mid w left) :
    Reads opened (v ++ w) left := reads_append_iff.2 ⟨mid, hv, hw⟩

theorem Reads.eq {left' : List Bracket} (h : Reads opened w left) (h' : Reads opened w left') :
    left = left' := Option.some.inj (h.symm.trans h')

theorem eq_cons_of_openedAfter {b : Bracket} (h : openedAfter opened (.closing b) = some left) :
    opened = b :: left := by
  cases opened with
  | nil => cases h
  | cons top opened =>
    simp only [openedAfter] at h
    split at h
    · rename_i htop
      cases h
      rw [htop]
    · cases h

theorem eq_cons_of_reads_closing {b : Bracket} (h : Reads opened [.closing b] left) :
    opened = b :: left := by
  obtain ⟨_, hclosed, hleft⟩ := reads_cons_iff.1 h
  cases hleft
  exact eq_cons_of_openedAfter hclosed

theorem Nested.reads (h : Nested w) (opened : List Bracket) : Reads opened w opened := by
  induction h generalizing opened with
  | nil => exact reads_nil opened
  | pair b hv hw ihv ihw =>
    refine reads_cons_iff.2 ⟨b :: opened, rfl, (ihv _).append ?_⟩
    exact reads_cons_iff.2 ⟨opened, if_pos rfl, ihw opened⟩

/-- The word closes the open brackets one by one, innermost first, and is well nested inside each
of them and after the last one. -/
def ClosesAll : List Bracket → List Role → Prop
  | [], w => Nested w
  | b :: opened, w => ∃ v u, Nested v ∧ ClosesAll opened u ∧ w = v ++ .closing b :: u

theorem ClosesAll.pair (b : Bracket) (hv : Nested v) (h : ClosesAll opened w) :
    ClosesAll opened (.opening b :: (v ++ .closing b :: w)) := by
  cases opened with
  | nil => exact hv.pair b h
  | cons top opened =>
    obtain ⟨u, u', hu, hu', rfl⟩ := h
    exact ⟨.opening b :: (v ++ .closing b :: u), u', hv.pair b hu, hu', by simp⟩

theorem closesAll_of_reads (hw : ∀ x ∈ w, x.isBracket = true) (h : Reads opened w []) :
    ClosesAll opened w := by
  induction w generalizing opened with
  | nil =>
    cases h
    exact .nil
  | cons x w ih =>
    obtain ⟨hx, hw⟩ := List.forall_mem_cons.1 hw
    obtain ⟨mid, hmid, hrest⟩ := reads_cons_iff.1 h
    have hclosed := ih hw hrest
    cases x with
    | plain => cases hx
    | quote q => cases hx
    | opening b =>
      -- the word closes the new bracket first; what follows closes the others
      cases hmid
      obtain ⟨v, u, hv, hu, rfl⟩ := hclosed
      exact hu.pair b hv
    | closing b =>
      obtain rfl := eq_cons_of_openedAfter hmid
      exact ⟨[], w, .nil, hclosed, rfl⟩

/-- **The words of the grammar are those that a stack reads from empty to empty.** -/
theorem nested_iff_reads (hw : ∀ x ∈ w, x.isBracket = true) : Nested w ↔ Reads [] w [] :=
  ⟨fun h => h.reads [], closesAll_of_reads hw⟩

/-! ### Brackets of texts -/

theorem bracketOf_literal (q : Quote) (x : Role) : bracketOf (.literal q) x = [] := rfl

theorem bracketOf_plain (r : Region) : bracketOf r .plain = [] := by
  cases r <;> rfl

theorem isBracket_of_mem_bracketsFrom {r : Region} {s : List α} :
    ∀ x ∈ bracketsFrom r s, x.isBracket = true := by
  induction s generalizing r with
  | nil => exact List.forall_mem_nil _
  | cons c cs ih =>
    refine List.forall_mem_append.2 ⟨fun x hx => ?_, ih⟩
    unfold bracketOf at hx
    split at hx
    · rename_i hc
      obtain rfl := List.mem_singleton.1 hx
      exact (Bool.and_eq_true_iff.1 hc).2
    · cases hx

theorem nested_brackets_iff {s : List α} : Nested (brackets s) ↔ Reads [] (brackets s) [] :=
  nested_iff_reads isBracket_of_mem_bracketsFrom

instance (s : List α) : Decidable (Nested (brackets s)) :=
  decidable_of_iff _ nested_brackets_iff.symm

theorem bracketsFrom_append (r : Region) (s t : List α) :
    bracketsFrom r (s ++ t) = bracketsFrom r s ++ bracketsFrom (r.afterAll s) t := by
  induction s generalizing r with
  | nil => rfl
  | cons c cs ih =>
    rw [List.cons_append, bracketsFrom, bracketsFrom, Region.afterAll_cons, ih,
      List.append_assoc]

theorem bracketsFrom_literal {s : List α} (h : QuoteFree s) (q : Quote) :
    bracketsFrom (.literal q) s = [] := by
  induction s with
  | nil => rfl
  | cons c cs ih =>
    obtain ⟨hc, hcs⟩ := List.forall_mem_cons.1 h
    rw [bracketsFrom, bracketOf_literal, Region.after_of_isQuote_eq_false hc, ih hcs,
      List.nil_append]

/-- What stands around a part of a literal, up to the next quotes, adds no brackets that count. -/
theorem bracketsFrom_literal_around {q q' : Quote} {x y z : List α} (hx : QuoteFree x)
    (hy : (Region.literal q).afterAll y = .literal q') (hz : QuoteFree z) :
    bracketsFrom (.literal q) (x ++ (y ++ z)) = bracketsFrom (.literal q) y := by
  rw [bracketsFrom_append, bracketsFrom_append, Region.afterAll_of_quoteFree hx, hy,
    bracketsFrom_literal hx, bracketsFrom_literal hz, List.nil_append, List.append_nil]

/-- A text may be read as the sequence of its roles. -/
instance : Symbol Role := ⟨id⟩

/-- The quotes and brackets of a text, in order. -/
def marks (s : List α) : List Role := (s.map role).filter (· != .plain)

theorem marks_append (s t : List α) : marks (s ++ t) = marks s ++ marks t := by
  simp [marks]

theorem marks_cons_of_plain {c : α} (h : role c = .plain) (cs : List α) :
    marks (c :: cs) = marks cs := by
  simp [marks, h]

theorem marks_cons_of_ne_plain {c : α} (h : role c ≠ .plain) (cs : List α) :
    marks (c :: cs) = role c :: marks cs := by
  simp [marks, h]

theorem marks_eq_nil_iff {s : List α} : marks s = [] ↔ ∀ c ∈ s, role c = .plain := by
  simp [marks]

theorem afterAll_marks (r : Region) (s : List α) : r.afterAll (marks s) = r.afterAll s := by
  induction s generalizing r with
  | nil => rfl
  | cons c cs ih =>
    by_cases hc : role c = .plain
    · rw [marks_cons_of_plain hc, ih, Region.afterAll_cons, hc,
        Region.after_of_isQuote_eq_false rfl]
    · rw [marks_cons_of_ne_plain hc, Region.afterAll_cons, Region.afterAll_cons, ih]
      rfl

theorem bracketsFrom_marks (r : Region) (s : List α) :
    bracketsFrom r (marks s) = bracketsFrom r s := by
  induction s generalizing r with
  | nil => rfl
  | cons c cs ih =>
    by_cases hc : role c = .plain
    · rw [marks_cons_of_plain hc, ih, bracketsFrom, hc, Region.after_of_isQuote_eq_false rfl,
        bracketOf_plain, List.nil_append]
    · rw [marks_cons_of_ne_plain hc, bracketsFrom, bracketsFrom, ih]
      rfl

/-- The brackets outside literals depend on the quotes and brackets of a text only. -/
theorem bracketsFrom_congr {s t : List α} (h : marks s = marks t) (r : Region) :
    bracketsFrom r s = bracketsFrom r t := by
  rw [← bracketsFrom_marks r s, h, bracketsFrom_marks]

theorem Region.afterAll_congr {s t : List α} (h : marks s = marks t) (r : Region) :
    r.afterAll s = r.afterAll t := by
  rw [← afterAll_marks r s, h, afterAll_marks]

/-! ### Two scans of one text -/

/-- A symbol takes different regions to different regions: a quote changes the places of the code
and its own literals, and nothing else does anything. -/
theorem Region.after_injective (x : Role) {r r' : Region} (h : r.after x = r'.after x) :
    r = r' := by
  revert h
  cases x with
  | quote p =>
    cases r with
    | code => cases r' with
      | code => exact fun _ => rfl
      | literal q' => cases p <;> cases q' <;> decide
    | literal q => cases r' with
      | code => cases p <;> cases q <;> decide
      | literal q' => cases p <;> cases q <;> cases q' <;> decide
  | _ => cases r <;> cases r' <;> exact id

/-- **Two scans that stand in different regions never meet,** so a scan that is started in a literal
as if it were code finds no code where there is some. -/
theorem Region.afterAll_injective (s : List α) {r r' : Region}
    (h : r.afterAll s = r'.afterAll s) : r = r' := by
  induction s generalizing r r' with
  | nil => exact h
  | cons c cs ih => exact Region.after_injective _ (ih h)

end Scan

end Pseudocode
