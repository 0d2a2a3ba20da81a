import Pseudocode.Proofs.Expr.Rewriting
import Pseudocode.Proofs.Marks
import Pseudocode.Proofs.Scan.Paren

/-!
# Calls of `azar` in code

The calls of `azar` are looked for in the whole text, and the parenthesis that closes a call is
looked for as if the call stood in code.  Where no literal holds a call, all calls that are found do
stand in code, and none of them is left: what is written between two pieces of the text holds no
call, and no call begins in one piece and ends in the next one.

* `CodeCall`, `Closed` : a call outside literals, and that its parenthesis is closed.
* `NoCall.append` : two texts without calls, where no call can lie across the seam.
* `noCall_random` : no call is left by the replacement.
* `random_replaces_calls` : **the replacement keeps the literals and leaves no call in code,** if no
  literal holds a call.
* `random_misses_call` : a call in a literal is replaced, and keeps one in code from being replaced.
-/

namespace Pseudocode

namespace Expr

open Scan

/-- The text is the head of a call, from its name to its parenthesis, behind the given
character. -/
def IsAzarHead (before : Option Char) (head : List Char) : Prop :=
  ∃ read blanks, head = read ++ (blanks ++ ['(']) ∧ read.map Text.keyChar = "azar".toList ∧
    (∀ c ∈ blanks, Text.isBlank c = true) ∧ Text.atBoundary before read.head? = true

/-- A call stands in the text outside literals: `front` comes before it, and `argument` follows its
parenthesis. -/
def CodeCall (s front argument : List Char) : Prop :=
  Region.code.afterAll front = .code ∧
    ∃ head, IsAzarHead front.getLast? head ∧ s = front ++ (head ++ argument)

/-- A parenthesis with the given text behind it is closed: a parenthesis in code follows, and those
between the two are well nested. -/
def Closed (argument : List Char) : Prop :=
  ∃ inside rest, argument = inside ++ ')' :: rest ∧ Region.code.afterAll inside = .code ∧
    Nested (parens inside)

/-- All calls of the text outside literals are closed. -/
def CallsClosed (s : List Char) : Prop :=
  ∀ front argument, CodeCall s front argument → Closed argument

/-- No call stands in the text outside literals. -/
def CallFree (s : List Char) : Prop := ∀ front argument, ¬ CodeCall s front argument

/-! ### Heads of calls -/

variable {before before' : Option Char} {head s front argument : List Char}

theorem afterAzar?_eq_some_iff_head :
    afterAzar? before s = some argument ↔
      ∃ head, IsAzarHead before head ∧ s = head ++ argument := by
  rw [afterAzar?_eq_some_iff]
  constructor
  · rintro ⟨read, blanks, rfl, h⟩
    exact ⟨_, ⟨read, blanks, rfl, h⟩, by simp⟩
  · rintro ⟨head, ⟨read, blanks, rfl, h⟩, rfl⟩
    exact ⟨read, blanks, by simp, h⟩

theorem IsAzarHead.quoteFree (h : IsAzarHead before head) : QuoteFree head := by
  obtain ⟨read, blanks, rfl, hread, hblanks, -⟩ := h
  exact azar_quoteFree hread hblanks

theorem IsAzarHead.ne_nil (h : IsAzarHead before head) : head ≠ [] := by
  obtain ⟨read, blanks, rfl, -⟩ := h
  simp

/-- A call may start behind any character that belongs to no word, as at the front of a text. -/
theorem IsAzarHead.of_noWord (h : IsAzarHead before head) (hbefore : NoWord before') :
    IsAzarHead before' head := by
  obtain ⟨read, blanks, hhead, hread, hblanks, -⟩ := h
  exact ⟨read, blanks, hhead, hread, hblanks, (atBoundary_left_iff (by decide) hread).2 hbefore⟩

theorem IsAzarHead.or_of_noWord {last : Option Char} (h : IsAzarHead last head)
    (hbefore : NoWord before) : IsAzarHead (last.or before) head := by
  cases last with
  | some c => exact h
  | none => exact h.of_noWord hbefore

/-- A character that may stand in the head of a call before its parenthesis. -/
def inHead (c : Char) : Bool := "azar".toList.contains (Text.keyChar c) || Text.isBlank c

/-- What a head consists of where it is cut in two. -/
theorem IsAzarHead.inHead_of_append {x y : List Char} (h : IsAzarHead before (x ++ y))
    (hy : y ≠ []) :
    (∀ c ∈ x, inHead c = true) ∧ ∀ c, y.head? = some c → inHead c = true ∨ c = '(' := by
  obtain ⟨read, blanks, heq, hread, hblanks, -⟩ := h
  have hbody : ∀ c ∈ read ++ blanks, inHead c = true := by
    refine List.forall_mem_append.2 ⟨fun c hc => ?_, fun c hc => by simp [inHead, hblanks c hc]⟩
    have hmem : Text.keyChar c ∈ "azar".toList := hread ▸ List.mem_map_of_mem hc
    rw [inHead, List.contains_iff_mem.2 hmem, Bool.true_or]
  -- the parenthesis ends the head, so it ends the second part
  obtain ⟨y, d, rfl⟩ := (List.eq_nil_or_concat y).resolve_left hy
  rw [List.concat_eq_append, ← List.append_assoc, ← List.append_assoc] at heq
  obtain ⟨hxy, hd⟩ := List.append_inj' heq rfl
  rw [← hxy] at hbody
  obtain ⟨hx, hy⟩ := List.forall_mem_append.1 hbody
  refine ⟨hx, fun c hc => ?_⟩
  cases y with
  | nil =>
    cases hd
    exact .inr (Option.some.inj hc).symm
  | cons e y =>
    cases hc
    exact .inl (hy c List.mem_cons_self)

/-- No head lies across the seam of the two texts, since one of the characters there cannot stand in
a head. -/
def Seals (x y : List Char) : Prop :=
  (∃ c, x.getLast? = some c ∧ inHead c = false) ∨
    ∃ c, y.head? = some c ∧ inHead c = false ∧ c ≠ '('

theorem Seals.not_isAzarHead {x y u v w z : List Char} (h : Seals x y) (hx : x = w ++ u)
    (hy : y = v ++ z) (hu : u ≠ []) (hv : v ≠ []) : ¬ IsAzarHead before (u ++ v) := by
  intro hhead
  obtain ⟨hinner, hfirst⟩ := hhead.inHead_of_append hv
  obtain ⟨c, hc, hout⟩ | ⟨c, hc, hout, hparen⟩ := h
  · rw [hx, List.getLast?_append_of_ne_nil _ hu] at hc
    rw [hinner c (List.mem_of_getLast? hc)] at hout
    cases hout
  · rw [hy, List.head?_append_of_ne_nil _ hv] at hc
    obtain hin | rfl := hfirst c hc
    · rw [hin] at hout
      cases hout
    · exact hparen rfl

/-! ### Texts without calls -/

/-- No call starts in code in the text, which is scanned from the given region and stands behind the
given character. -/
def NoCall (r : Region) (before : Option Char) (s : List Char) : Prop :=
  ∀ front head back, s = front ++ (head ++ back) → IsAzarHead (front.getLast?.or before) head →
    r.afterAll front ≠ .code

theorem callFree_iff_noCall : CallFree s ↔ NoCall .code none s := by
  constructor
  · intro h front head back hs hhead hcode
    rw [Option.or_none] at hhead
    exact h front back ⟨hcode, head, hhead, hs⟩
  · rintro h front argument ⟨hcode, head, hhead, hs⟩
    rw [← Option.or_none (o := front.getLast?)] at hhead
    exact h front head argument hs hhead hcode

theorem NoCall.append {r : Region} {x y : List Char} (hx : NoCall r before x)
    (hy : NoCall (r.afterAll x) (x.getLast?.or before) y) (hseals : Seals x y) :
    NoCall r before (x ++ y) := by
  intro front head back hs hhead
  obtain ⟨a, rfl, hback⟩ | ⟨u, hfront, hback⟩ := List.append_eq_append_iff.1 hs
  · rw [List.getLast?_append, Option.or_assoc] at hhead
    rw [Region.afterAll_append]
    exact hy a head back hback hhead
  · cases u with
    | nil =>
      rw [List.append_nil] at hfront
      subst hfront
      exact hy [] head back hback.symm hhead
    | cons c u =>
      obtain ⟨v, hhead', hy'⟩ | ⟨v, hu, -⟩ := List.append_eq_append_iff.1 hback.symm
      · cases v with
        | nil =>
          rw [List.append_nil] at hhead'
          exact hx front head [] (by rw [List.append_nil, hhead', hfront]) hhead
        | cons d v =>
          rw [hhead'] at hhead
          exact absurd hhead
            (hseals.not_isAzarHead hfront hy' (List.cons_ne_nil _ _) (List.cons_ne_nil _ _))
      · exact hx front head v (by rw [hfront, hu]) hhead

/-- The character before a text can only keep a call from starting. -/
theorem NoCall.of_none {r : Region} (h : NoCall r none s) (before : Option Char) :
    NoCall r before s := by
  intro front head back hs hhead
  refine h front head back hs ?_
  cases hlast : front.getLast? with
  | some c => rwa [hlast] at hhead
  | none => exact hhead.of_noWord rfl

/-- Every head holds a letter for which only `z` can stand. -/
theorem noCall_of_forall_keyChar (h : s.all (Text.keyChar · != 'z') = true) (r : Region)
    (before : Option Char) : NoCall r before s := by
  rintro front head back rfl ⟨read, blanks, rfl, hread, -⟩
  have hz : 'z' ∈ read.map Text.keyChar := by
    rw [hread]
    decide
  obtain ⟨c, hc, hkey⟩ := List.mem_map.1 hz
  have hne := List.all_eq_true.1 h c (by simp [hc])
  simp [hkey] at hne

theorem exists_breakAzar? {back : List Char} (hs : s = front ++ (head ++ back))
    (hhead : IsAzarHead (front.getLast?.or before) head) :
    ∃ front' argument, breakAzar? before s = some (front', argument) ∧
      front'.length ≤ front.length := by
  induction front generalizing before s with
  | nil =>
    have hafter : afterAzar? before s = some back := afterAzar?_eq_some_iff_head.2 ⟨head, hhead, hs⟩
    rw [List.nil_append] at hs
    obtain ⟨c, cs, rfl⟩ := List.exists_cons_of_ne_nil fun hnil : s = [] =>
      hhead.ne_nil (List.append_eq_nil_iff.1 (hs.symm.trans hnil)).1
    exact ⟨[], back, by simp only [breakAzar?, hafter], Nat.zero_le _⟩
  | cons c front ih =>
    subst hs
    rw [Text.getLast?_cons_or] at hhead
    obtain ⟨front', argument, hbreak, hle⟩ := ih rfl hhead
    rw [List.cons_append, breakAzar?]
    split
    · rename_i argument' _
      exact ⟨[], argument', rfl, Nat.zero_le _⟩
    · exact ⟨c :: front', argument, by rw [hbreak]; rfl, Nat.succ_le_succ hle⟩

theorem exists_head_of_breakAzar? (h : breakAzar? none s = some (front, argument)) :
    ∃ head, IsAzarHead front.getLast? head ∧ s = front ++ (head ++ argument) := by
  obtain ⟨read, blanks, rfl, hread, hblanks, hb⟩ := eq_append_of_breakAzar? h
  rw [Option.or_none] at hb
  exact ⟨_, ⟨read, blanks, rfl, hread, hblanks, hb⟩, by simp⟩

theorem noCall_of_breakAzar?_eq_none (h : breakAzar? none s = none) (r : Region) :
    NoCall r none s := by
  intro front head back hs hhead
  obtain ⟨_, _, hbreak, -⟩ := exists_breakAzar? hs hhead
  cases h.symm.trans hbreak

theorem noCall_of_breakAzar? (h : breakAzar? none s = some (front, argument)) (r : Region) :
    NoCall r none front := by
  obtain ⟨first, -, hs⟩ := exists_head_of_breakAzar? h
  intro front' head back hfront hhead
  rw [hfront, List.append_assoc, List.append_assoc] at hs
  obtain ⟨_, _, hbreak, hle⟩ := exists_breakAzar? hs hhead
  cases h.symm.trans hbreak
  have hpos := List.length_pos_iff.2 hhead.ne_nil
  rw [hfront, List.length_append, List.length_append] at hle
  omega

/-! ### Closed calls -/

theorem eq_append_of_call {inside rest : List Char}
    (h : closeParen? argument = some (inside, rest)) :
    argument = inside ++ ([')'] ++ rest) ∧ Region.code.afterAll inside = .code ∧
      Nested (parens inside) := by
  obtain ⟨c, hc, h⟩ := closeParen?_eq_some_iff.1 h
  obtain rfl := eq_closing_paren hc
  exact h

theorem closed_iff : Closed argument ↔ (closeParen? argument).isSome = true := by
  rw [Option.isSome_iff_exists]
  constructor
  · rintro ⟨inside, rest, h⟩
    exact ⟨(inside, rest), closeParen?_eq_some_iff.2 ⟨')', rfl, h⟩⟩
  · rintro ⟨⟨inside, rest⟩, h⟩
    exact ⟨inside, rest, eq_append_of_call h⟩

theorem IsAzarHead.marks_eq (h : IsAzarHead before head) : marks head = marks ['('] := by
  obtain ⟨read, blanks, rfl, hread, hblanks, -⟩ := h
  rw [marks_append, marks_append, marks_of_map_keyChar (by decide) hread,
    marks_of_isBlank hblanks]
  rfl

theorem callsClosed_of_nested (h : Nested (parens s)) : CallsClosed s := by
  rintro front argument ⟨hcode, head, hhead, rfl⟩
  have hopening : parensFrom .code head = [.opening .round] := by
    rw [parensFrom, bracketsFrom_congr hhead.marks_eq]
    rfl
  have hreads := nested_parens_iff.1 h
  rw [parens, parensFrom_append, parensFrom_append, hcode,
    Region.afterAll_of_quoteFree hhead.quoteFree, hopening] at hreads
  obtain ⟨opened, -, hreads⟩ := reads_append_iff.1 hreads
  obtain ⟨_, hopened, hreads⟩ := reads_cons_iff.1 hreads
  cases hopened
  exact closed_iff.2 (closeParen?_isSome_of_reads hreads (Nat.zero_le _))

/-- The calls of a part of a text that starts in code, outside a word, are calls of the text. -/
theorem CallsClosed.of_append {x y : List Char} (h : CallsClosed (x ++ y))
    (hcode : Region.code.afterAll x = .code) (hlast : NoWord x.getLast?) : CallsClosed y := by
  rintro front argument ⟨hfront, head, hhead, rfl⟩
  refine h (x ++ front) argument ⟨?_, head, ?_, by simp⟩
  · rw [Region.afterAll_append, hcode, hfront]
  · rw [List.getLast?_append]
    exact hhead.or_of_noWord hlast

/-- Where no literal holds a call, every call starts in code. -/
theorem IsAzarHead.afterAll_front (hhead : IsAzarHead front.getLast? head)
    (h : ∀ text ∈ literals (front ++ (head ++ argument)), ¬ HoldsAzar text) :
    Region.code.afterAll front = .code := by
  obtain ⟨read, blanks, rfl, hread, hblanks, hb⟩ := hhead
  exact afterAll_front_eq_code (by simpa using h) hread hblanks hb

/-! ### Deciding where calls stand -/

/-- A call stands in the text outside literals, and the check holds of what follows its
parenthesis. -/
def anyCall (check : List Char → Bool) (s : List Char) : Bool :=
  (List.range (s.length + 1)).any fun i =>
    Region.code.afterAll (s.take i) == .code &&
      (afterAzar? (s.take i).getLast? (s.drop i)).any check

theorem anyCall_iff {check : List Char → Bool} :
    anyCall check s = true ↔
      ∃ front argument, CodeCall s front argument ∧ check argument = true := by
  rw [anyCall, List.any_eq_true]
  simp only [Bool.and_eq_true, beq_iff_eq, Option.any_eq_true, afterAzar?_eq_some_iff_head]
  constructor
  · rintro ⟨i, -, hcode, argument, ⟨head, hhead, hs⟩, hcheck⟩
    exact ⟨s.take i, argument, ⟨hcode, head, hhead, by rw [← hs, List.take_append_drop]⟩, hcheck⟩
  · rintro ⟨front, argument, ⟨hcode, head, hhead, rfl⟩, hcheck⟩
    refine ⟨front.length, List.mem_range.2 (by rw [List.length_append]; omega), ?_⟩
    rw [List.take_left, List.drop_left]
    exact ⟨hcode, argument, ⟨head, hhead, rfl⟩, hcheck⟩

theorem callFree_iff : CallFree s ↔ anyCall (fun _ => true) s = false := by
  rw [← Bool.not_eq_true, anyCall_iff]
  simp [CallFree]

theorem callsClosed_iff :
    CallsClosed s ↔ anyCall (fun argument => !(closeParen? argument).isSome) s = false := by
  rw [← Bool.not_eq_true, anyCall_iff]
  simp [CallsClosed, closed_iff, Option.isSome_iff_ne_none]

instance (s : List Char) : Decidable (CallFree s) := decidable_of_iff _ callFree_iff.symm

instance (s : List Char) : Decidable (CallsClosed s) := decidable_of_iff _ callsClosed_iff.symm

/-! ### The replacement -/

/-- **No call is left by the replacement,** since no call stands in what it writes and none lies
across a seam. -/
theorem noCall_random (hliterals : ∀ text ∈ literals s, ¬ HoldsAzar text)
    (hclosed : CallsClosed s) : NoCall .code none (random s) := by
  fun_induction random s with
  | case1 s hs => exact noCall_of_breakAzar?_eq_none hs .code
  | case2 s front argument hs hclose =>
    -- the first call stands in code, so it would be closed
    obtain ⟨head, hhead, rfl⟩ := exists_head_of_breakAzar? hs
    have hcall := closed_iff.1
      (hclosed front argument ⟨hhead.afterAll_front hliterals, head, hhead, rfl⟩)
    rw [hclose] at hcall
    cases hcall
  | case3 s front argument hs inside rest hclose _ _ _ ihInside ihRest =>
    obtain ⟨head, hhead, rfl⟩ := exists_head_of_breakAzar? hs
    obtain ⟨rfl, hinside, hnested⟩ := eq_append_of_call hclose
    have hfront := hhead.afterAll_front hliterals
    obtain ⟨hparts, -⟩ := literals_call hfront hhead.quoteFree hinside
      (by decide : QuoteFree [')']) rest
    rw [hparts] at hliterals
    obtain ⟨htrim, hcode⟩ := literals_trim hinside
    have hliteralsInside : ∀ text ∈ literals (Text.trim inside), ¬ HoldsAzar text :=
      fun text htext => hliterals text (by
        rw [htrim] at htext
        simp [htext])
    have hnestedInside : Nested (parens (Text.trim inside)) := by
      rwa [parens, parensFrom, bracketsFrom_congr (marks_trim inside)]
    have hclosedRest : CallsClosed rest := by
      have hs : front ++ (head ++ (inside ++ ([')'] ++ rest))) =
          (front ++ (head ++ (inside ++ [')']))) ++ rest := by simp
      rw [hs] at hclosed
      refine hclosed.of_append ?_ (by simp [NoWord]; decide)
      rw [Region.afterAll_append, hfront, Region.afterAll_append,
        Region.afterAll_of_quoteFree hhead.quoteFree, Region.afterAll_append, hinside]
      rfl
    have hend : Region.code.afterAll (random (Text.trim inside)) = .code :=
      (literals_random hliteralsInside).2.trans hcode
    simp only [List.append_assoc]
    refine (noCall_of_breakAzar? hs .code).append ?_ (.inr ⟨'M', rfl, by decide, by decide⟩)
    rw [hfront]
    refine (noCall_of_forall_keyChar (by decide) _ _).append ?_ (.inl ⟨'(', rfl, by decide⟩)
    rw [Region.afterAll_of_quoteFree (by decide)]
    refine ((ihInside hliteralsInside (callsClosed_of_nested hnestedInside)).of_none _).append ?_
      (.inr ⟨')', rfl, by decide, by decide⟩)
    rw [hend]
    refine (noCall_of_forall_keyChar (by decide) _ _).append ?_ (.inl ⟨')', rfl, by decide⟩)
    rw [Region.afterAll_of_quoteFree (by decide)]
    exact (ihRest (fun text htext => hliterals text (by simp [htext])) hclosedRest).of_none _

/-- **The replacement keeps the literals and leaves no call in code,** if every call in code is
closed and no literal holds a call. -/
theorem random_replaces_calls (s : List Char) (hclosed : CallsClosed s)
    (hliterals : ∀ text ∈ literals s, ¬ HoldsAzar text) :
    literals (random s) = literals s ∧ CallFree (random s) :=
  ⟨(literals_random hliterals).1, callFree_iff_noCall.2 (noCall_random hliterals hclosed)⟩

/-- A call inside a call, an argument with a parenthesis in a literal, blanks before a parenthesis,
and literals that hold no more than a part of a call. -/
theorem random_replaces_nested_calls :
    let s := "azar( azar(2) + \")\" ) + AZAR \t(n) + \"azar\" + 'zazar('".toList
    CallsClosed s ∧ (∀ text ∈ literals s, ¬ HoldsAzar text) ∧
      literals (random s) = literals s ∧ CallFree (random s) := by
  intro s
  have hclosed : CallsClosed s := by decide +revert
  have hliterals : ∀ text ∈ literals s, ¬ HoldsAzar text := by decide +revert
  exact ⟨hclosed, hliterals, random_replaces_calls s hclosed hliterals⟩

/-- A call in a literal is replaced, and one that is not closed there keeps the calls behind it, in
code, from being replaced. -/
theorem random_misses_call :
    let s := "\"azar(3)\" + \"azar(\" + azar(6)".toList
    CallsClosed s ∧ literals (random s) ≠ literals s ∧ ¬ CallFree (random s) := by
  decide +kernel

end Expr

end Pseudocode
