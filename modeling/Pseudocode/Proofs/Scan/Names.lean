import Pseudocode.Proofs.Pattern

/-!
# Names outside literals

A name is a maximal run of characters that can stand in names: letters, digits and the underscore,
in any script.  `codeNames` reads off the names of a text that lie outside its literals.

* `NameAt` : a name stands at a place of a text, said without a scan.
* `exists_namesFrom_append` : how the scan goes on behind a part of the text.
* `mem_codeNames_iff` : **the scan finds the names, and nothing else.**
-/

namespace Pseudocode

namespace Scan

/-- A name that has been read, if there is one. -/
def ended (name : List Char) : List (List Char) := if name.isEmpty then [] else [name]

/-- The names outside the literals of a text that is scanned from the given region; `held` is the
name that is being read. -/
def namesFrom : Region → (held : List Char) → List Char → List (List Char)
  | _, held, [] => ended held
  | r, held, c :: cs =>
    if r.holds (role c) || !Text.isNameChar c then ended held ++ namesFrom (r.after (role c)) [] cs
    else namesFrom r (held ++ [c]) cs

/-- The names outside the literals of a text, in order. -/
def codeNames (s : List Char) : List (List Char) := namesFrom .code [] s

/-- A name stands in code between `front` and `back`, as far as it goes. -/
structure NameAt (front name back : List Char) : Prop where
  ne_nil : name ≠ []
  isNameChar : ∀ c ∈ name, Text.isNameChar c = true
  in_code : Region.code.afterAll front = .code
  left : front.getLast?.any Text.isNameChar = false
  right : back.head?.any Text.isNameChar = false

theorem isNameChar_of_isQuote {c : Char} (h : (role c).isQuote = true) :
    Text.isNameChar c = false := by
  obtain rfl | rfl := role_isQuote_iff.1 h <;> decide

theorem quoteFree_of_isNameChar {s : List Char} (h : ∀ c ∈ s, Text.isNameChar c = true) :
    QuoteFree s :=
  quoteFree_of_forall (by decide) (by decide) h

/-! ### Names branch by branch -/

variable {held cs s u name : List Char} {c : Char} {q : Quote}

theorem mem_ended : name ∈ ended held ↔ name = held ∧ held ≠ [] := by
  unfold ended
  split
  · rename_i h
    simp [List.isEmpty_iff.1 h]
  · rename_i h
    rw [List.isEmpty_iff] at h
    simp [h]

theorem namesFrom_code_name (h : Text.isNameChar c = true) :
    namesFrom .code held (c :: cs) = namesFrom .code (held ++ [c]) cs := by
  have hq : (role c).isQuote = false := by
    have hfree := quoteFree_of_isNameChar (s := [c]) (by simpa using h)
    exact hfree c List.mem_cons_self
  simp [namesFrom, Region.holds, hq, h]

theorem namesFrom_other (r : Region) (h : Text.isNameChar c = false) :
    namesFrom r held (c :: cs) = ended held ++ namesFrom (r.after (role c)) [] cs := by
  simp [namesFrom, h]

theorem namesFrom_literal :
    namesFrom (.literal q) held (c :: cs) =
      ended held ++ namesFrom ((Region.literal q).after (role c)) [] cs :=
  rfl

theorem namesFrom_code_append (hu : ∀ c ∈ u, Text.isNameChar c = true) :
    namesFrom .code held (u ++ s) = namesFrom .code (held ++ u) s := by
  induction u generalizing held with
  | nil => rw [List.append_nil, List.nil_append]
  | cons c u ih =>
    obtain ⟨hc, hu⟩ := List.forall_mem_cons.1 hu
    rw [List.cons_append, namesFrom_code_name hc, ih hu, List.append_assoc, List.singleton_append]

/-- The scan goes on behind a part of the text in the region where that part ends. -/
theorem exists_namesFrom_append (r : Region) (held u : List Char) :
    ∃ names held', ∀ s,
      namesFrom r held (u ++ s) = names ++ namesFrom (r.afterAll u) held' s := by
  induction u generalizing r held with
  | nil => exact ⟨[], held, fun _ => rfl⟩
  | cons c u ih =>
    cases hc : r.holds (role c) || !Text.isNameChar c with
    | true =>
      obtain ⟨names, held', h⟩ := ih (r.after (role c)) []
      refine ⟨ended held ++ names, held', fun s => ?_⟩
      rw [List.cons_append, namesFrom, if_pos hc, h, List.append_assoc, Region.afterAll_cons]
    | false =>
      -- a character of a name in code leaves the region as it is
      obtain ⟨hholds, hname⟩ := Bool.or_eq_false_iff.1 hc
      have hr : r.after (role c) = r := by
        cases r with
        | code => exact Region.after_of_isQuote_eq_false hholds .code
        | literal q => cases hholds
      obtain ⟨names, held', h⟩ := ih r (held ++ [c])
      refine ⟨names, held', fun s => ?_⟩
      rw [List.cons_append, namesFrom, if_neg (by simp [hc]), h, Region.afterAll_cons, hr]

/-! ### Places of names -/

theorem NameAt.mem_codeNames {front back : List Char} (h : NameAt front name back) :
    name ∈ codeNames (front ++ (name ++ back)) := by
  -- behind `front` no name is being read, as no character of a name ends it
  obtain ⟨names, hfront⟩ : ∃ names, codeNames (front ++ (name ++ back)) =
      names ++ namesFrom .code [] (name ++ back) := by
    obtain rfl | ⟨front, c, rfl⟩ := List.eq_nil_or_concat front
    · exact ⟨[], rfl⟩
    · have hc : Text.isNameChar c = false := by simpa using h.left
      have hcode := h.in_code
      rw [List.concat_eq_append, Region.afterAll_append] at hcode
      obtain ⟨names, held, hnames⟩ := exists_namesFrom_append .code [] front
      refine ⟨names ++ ended held, ?_⟩
      rw [codeNames, List.concat_eq_append, List.append_assoc, hnames, List.singleton_append,
        namesFrom_other _ hc, List.append_assoc]
      exact congrArg (fun r => names ++ (ended held ++ namesFrom r [] (name ++ back))) hcode
  obtain ⟨later, hname⟩ : ∃ later, namesFrom .code name back = ended name ++ later := by
    cases back with
    | nil => exact ⟨[], (List.append_nil _).symm⟩
    | cons c back => exact ⟨_, namesFrom_other .code h.right⟩
  rw [hfront, namesFrom_code_append h.isNameChar, List.nil_append, hname]
  exact List.mem_append_right _ (List.mem_append_left _ (mem_ended.2 ⟨rfl, h.ne_nil⟩))

/-- A scan has come to the region `r` after `done` and `held`, and `held` is the start of a name. -/
structure ScanAt (r : Region) (done held : List Char) : Prop where
  region : Region.code.afterAll done = r
  last : r = .code → done.getLast?.any Text.isNameChar = false
  held_in_code : ∀ c ∈ held, r = .code ∧ Text.isNameChar c = true

namespace ScanAt

variable {r : Region} {done : List Char}

theorem nameAt (h : ScanAt r done held) (hname : name ∈ ended held) (back : List Char)
    (hback : r = .code → back.head?.any Text.isNameChar = false) :
    held = name ∧ NameAt done name back := by
  obtain ⟨rfl, hne⟩ := mem_ended.1 hname
  obtain ⟨c, hc⟩ := List.exists_mem_of_ne_nil name hne
  obtain rfl := (h.held_in_code c hc).1
  exact ⟨rfl, hne, fun c hc => (h.held_in_code c hc).2, h.region, h.last rfl, hback rfl⟩

theorem hold (h : ScanAt .code done held) (hc : Text.isNameChar c = true) :
    ScanAt .code done (held ++ [c]) :=
  ⟨h.region, h.last,
    List.forall_mem_append.2 ⟨h.held_in_code, List.forall_mem_singleton.2 ⟨rfl, hc⟩⟩⟩

theorem pass (h : ScanAt r done held) (hc : r = .code → Text.isNameChar c = false) :
    ScanAt (r.after (role c)) (done ++ (held ++ [c])) [] := by
  have hheld : QuoteFree held := quoteFree_of_isNameChar fun c hc => (h.held_in_code c hc).2
  refine ⟨?_, fun hcode => ?_, List.forall_mem_nil _⟩
  · simp [h.region, Region.afterAll_of_quoteFree hheld]
  · suffices hname : Text.isNameChar c = false by simpa [List.getLast?_append] using hname
    cases r with
    | code => exact hc rfl
    | literal q =>
      -- only a quote leads back into code
      by_contra hname
      have hq := quoteFree_of_isNameChar (s := [c]) (by simpa using hname) c List.mem_cons_self
      rw [Region.after_of_isQuote_eq_false hq] at hcode
      cases hcode

end ScanAt

theorem exists_nameAt_of_mem_namesFrom {r : Region} {done : List Char} (hscan : ScanAt r done held)
    (h : name ∈ namesFrom r held s) :
    ∃ front back, done ++ (held ++ s) = front ++ (name ++ back) ∧ NameAt front name back := by
  induction s generalizing r held done with
  | nil =>
    obtain ⟨rfl, hat⟩ := hscan.nameAt h [] fun _ => rfl
    exact ⟨done, [], rfl, hat⟩
  | cons c cs ih =>
    cases hc : r.holds (role c) || !Text.isNameChar c with
    | true =>
      have hother : r = .code → Text.isNameChar c = false := by
        rintro rfl
        obtain hq | hc := Bool.or_eq_true_iff.1 hc
        · exact isNameChar_of_isQuote hq
        · simpa using hc
      rw [namesFrom, if_pos hc] at h
      obtain h | h := List.mem_append.1 h
      · obtain ⟨rfl, hat⟩ := hscan.nameAt h (c :: cs) hother
        exact ⟨done, c :: cs, rfl, hat⟩
      · have hrest := ih (hscan.pass hother) h
        simpa using hrest
    | false =>
      obtain ⟨hholds, hname⟩ := Bool.or_eq_false_iff.1 hc
      cases r with
      | literal q => cases hholds
      | code =>
        have hname : Text.isNameChar c = true := by simpa using hname
        rw [namesFrom_code_name hname] at h
        have hrest := ih (hscan.hold hname) h
        simpa using hrest

/-- **The scan finds the names outside literals, and nothing else.** -/
theorem mem_codeNames_iff :
    name ∈ codeNames s ↔ ∃ front back, s = front ++ (name ++ back) ∧ NameAt front name back := by
  constructor
  · have hstart : ScanAt .code [] [] := ⟨rfl, fun _ => rfl, List.forall_mem_nil _⟩
    exact exists_nameAt_of_mem_namesFrom hstart
  · rintro ⟨front, back, rfl, hat⟩
    exact hat.mem_codeNames

end Scan

end Pseudocode
