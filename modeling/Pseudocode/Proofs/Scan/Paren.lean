import Pseudocode.Proofs.Scan.Brackets

/-!
# Matching parentheses

The parenthesis that closes another one is such that the parentheses between the two, outside
literals, are well nested.  Brackets of other shapes do not matter to it; if the text around the two
parentheses is well nested, then so are all brackets between them.

* `parenDepth_cases` : what a symbol does to the depth of parentheses.
* `closeParen?_eq_some_iff` : **what it means to close a parenthesis.**
* `closeParen?_isSome_of_reads` : a parenthesis that is not left open is closed.
* `reads_of_closeParen?` : what stands between a parenthesis and the one that closes it is well
  nested by itself, if the text around it is.
-/

namespace Pseudocode

namespace Scan

variable {α : Type} [Symbol α]

/-- The symbol is a parenthesis. -/
def Role.isParen (x : Role) : Bool := x = .opening .round || x = .closing .round

/-- The parentheses of a text outside its literals, in order, where the scan starts in the given
region. -/
def parensFrom (r : Region) (s : List α) : List Role := (bracketsFrom r s).filter Role.isParen

/-- The parentheses of a text outside its literals, in order. -/
def parens (s : List α) : List Role := parensFrom .code s

theorem parensFrom_cons (r : Region) (c : α) (cs : List α) :
    parensFrom r (c :: cs) =
      (bracketOf r (role c)).filter Role.isParen ++ parensFrom (r.after (role c)) cs := by
  rw [parensFrom, bracketsFrom, List.filter_append, parensFrom]

theorem parensFrom_append (r : Region) (s t : List α) :
    parensFrom r (s ++ t) = parensFrom r s ++ parensFrom (r.afterAll s) t := by
  rw [parensFrom, bracketsFrom_append, List.filter_append, parensFrom, parensFrom]

theorem nested_parens_iff {s : List α} : Nested (parens s) ↔ Reads [] (parens s) [] :=
  nested_iff_reads fun x hx => isBracket_of_mem_bracketsFrom x (List.mem_filter.1 hx).1

/-- What a symbol does to the depth of parentheses: nothing, unless it is a parenthesis in code. -/
theorem parenDepth_cases (r : Region) (depth : Nat) (x : Role) :
    (bracketOf r x).filter Role.isParen = [] ∧ parenDepth r depth x = some depth ∨
      bracketOf r x = [.opening .round] ∧ parenDepth r depth x = some (depth + 1) ∨
      bracketOf r x = [.closing .round] ∧
        (depth = 0 ∧ parenDepth r depth x = none ∨
          ∃ d, depth = d + 1 ∧ parenDepth r depth x = some d) := by
  cases r with
  | literal q => exact .inl ⟨rfl, rfl⟩
  | code =>
    cases x with
    | plain => exact .inl ⟨rfl, rfl⟩
    | quote q => exact .inl ⟨rfl, rfl⟩
    | opening b =>
      cases b with
      | round => exact .inr (.inl ⟨rfl, rfl⟩)
      | square => exact .inl ⟨rfl, rfl⟩
      | curly => exact .inl ⟨rfl, rfl⟩
    | closing b =>
      cases b with
      | round =>
        refine .inr (.inr ⟨rfl, ?_⟩)
        cases depth with
        | zero => exact .inl ⟨rfl, rfl⟩
        | succ d => exact .inr ⟨d, rfl, rfl⟩
      | square => exact .inl ⟨rfl, rfl⟩
      | curly => exact .inl ⟨rfl, rfl⟩

/-! ### Parentheses alone -/

theorem reads_of_parenDepth {r : Region} {depth d : Nat} {x : Role}
    (h : parenDepth r depth x = some d) (base : List Bracket) :
    Reads (List.replicate depth .round ++ base) ((bracketOf r x).filter Role.isParen)
      (List.replicate d .round ++ base) := by
  obtain ⟨hx, hd⟩ | ⟨hx, hd⟩ | ⟨hx, ⟨-, hd⟩ | ⟨e, rfl, hd⟩⟩ := parenDepth_cases r depth x
  · rw [hx]
    cases hd.symm.trans h
    exact reads_nil _
  · rw [hx]
    cases hd.symm.trans h
    rfl
  · cases hd.symm.trans h
  · rw [hx]
    cases hd.symm.trans h
    rfl

theorem parenDepth_eq_none {r : Region} {depth : Nat} {x : Role}
    (h : parenDepth r depth x = none) : depth = 0 ∧ bracketOf r x = [.closing .round] := by
  obtain ⟨-, hd⟩ | ⟨-, hd⟩ | ⟨hx, ⟨hzero, -⟩ | ⟨_, _, hd⟩⟩ := parenDepth_cases r depth x
  · cases hd.symm.trans h
  · cases hd.symm.trans h
  · exact ⟨hzero, hx⟩
  · cases hd.symm.trans h

/-- What closes the outermost parenthesis is a parenthesis in code, behind a text that closes the
others. -/
theorem closeParenFrom_eq_some_iff {r : Region} {depth : Nat} {s inside rest : List α} :
    closeParenFrom r depth s = some (inside, rest) ↔
      ∃ c, role c = .closing .round ∧ s = inside ++ c :: rest ∧ r.afterAll inside = .code ∧
        Reads (List.replicate depth .round) (parensFrom r inside) [] := by
  constructor
  · intro h
    induction s generalizing r depth inside with
    | nil => cases h
    | cons c cs ih =>
      rw [closeParenFrom] at h
      split at h
      · rename_i hd
        cases h
        obtain ⟨rfl, hc⟩ := eq_closing_of_parenDepth hd
        obtain ⟨rfl, -⟩ := parenDepth_eq_none hd
        exact ⟨c, hc, rfl, rfl, reads_nil []⟩
      · rename_i d hd
        simp only [Option.map_eq_some_iff, Prod.exists, Prod.mk.injEq] at h
        obtain ⟨inside', rest', hcs, rfl, rfl⟩ := h
        obtain ⟨c', hc', rfl, hregion, hreads⟩ := ih hcs
        have hstep := reads_of_parenDepth hd []
        rw [List.append_nil, List.append_nil] at hstep
        refine ⟨c', hc', rfl, hregion, ?_⟩
        rw [parensFrom_cons]
        exact hstep.append hreads
  · rintro ⟨c, hc, rfl, hregion, h⟩
    induction inside generalizing r depth with
    | nil =>
      obtain rfl : r = .code := hregion
      obtain rfl : depth = 0 := (List.replicate_eq_nil_iff _).1 (Option.some.inj h)
      rw [List.nil_append, closeParenFrom, hc]
      rfl
    | cons a inside ih =>
      rw [parensFrom_cons] at h
      obtain ⟨mid, hmid, hrest⟩ := reads_append_iff.1 h
      rw [Region.afterAll_cons] at hregion
      rw [List.cons_append, closeParenFrom]
      cases hd : parenDepth r depth (role a) with
      | none =>
        obtain ⟨rfl, ha⟩ := parenDepth_eq_none hd
        rw [ha] at hmid
        cases hmid
      | some d =>
        have hstep := reads_of_parenDepth hd []
        rw [List.append_nil, List.append_nil] at hstep
        obtain rfl := hstep.eq hmid
        simp only [ih hregion hrest, Option.map_some]

/-- **What it means to close a parenthesis:** the parentheses between the two are well nested, and
the second one is read in code. -/
theorem closeParen?_eq_some_iff {s inside rest : List α} :
    closeParen? s = some (inside, rest) ↔
      ∃ c, role c = .closing .round ∧ s = inside ++ c :: rest ∧
        Region.code.afterAll inside = .code ∧ Nested (parens inside) := by
  rw [closeParen?, closeParenFrom_eq_some_iff]
  simp only [nested_parens_iff]
  rfl

theorem length_lt_of_closeParenFrom {r : Region} {depth : Nat} {s : List α}
    {base left : List Bracket} (hclose : closeParenFrom r depth s = none)
    (h : Reads (List.replicate depth .round ++ .round :: base) (parensFrom r s) left) :
    base.length < left.length := by
  induction s generalizing r depth with
  | nil =>
    cases h
    rw [List.length_append, List.length_cons]
    omega
  | cons c cs ih =>
    rw [parensFrom_cons] at h
    obtain ⟨mid, hmid, hrest⟩ := reads_append_iff.1 h
    rw [closeParenFrom] at hclose
    split at hclose
    · cases hclose
    · rename_i d hd
      obtain rfl := (reads_of_parenDepth hd _).eq hmid
      exact ih (Option.map_eq_none_iff.1 hclose) hrest

theorem closeParen?_isSome_of_reads {s : List α} {base left : List Bracket}
    (h : Reads (.round :: base) (parens s) left) (hleft : left.length ≤ base.length) :
    (closeParen? s).isSome = true := by
  cases hclose : closeParen? s with
  | some parts => rfl
  | none =>
    have hlt := length_lt_of_closeParenFrom hclose h
    omega

/-! ### All brackets -/

/-- What a symbol inside parentheses does to the open brackets: the outermost parenthesis, above
which the brackets `above` are open, stays open. -/
theorem exists_openedAfter_of_parenDepth {depth d : Nat} {x : Role}
    {above base mid : List Bracket} (hd : parenDepth .code depth x = some d)
    (hcount : above.count .round = depth)
    (h : openedAfter (above ++ .round :: base) x = some mid) :
    ∃ above', mid = above' ++ .round :: base ∧ above'.count .round = d ∧
      ∀ base', openedAfter (above ++ base') x = some (above' ++ base') := by
  cases x with
  | plain =>
    cases hd
    cases h
    exact ⟨above, rfl, hcount, fun _ => rfl⟩
  | quote q =>
    cases hd
    cases h
    exact ⟨above, rfl, hcount, fun _ => rfl⟩
  | opening b =>
    cases h
    refine ⟨b :: above, rfl, ?_, fun _ => rfl⟩
    cases b <;> cases hd <;> simp [← hcount]
  | closing b =>
    cases above with
    | nil =>
      -- only the outermost parenthesis could be closed, and it is not
      obtain rfl : 0 = depth := hcount
      simp only [List.nil_append, openedAfter] at h
      split at h
      · rename_i hb
        subst hb
        cases hd
      · cases h
    | cons top above =>
      simp only [List.cons_append, openedAfter] at h
      split at h
      · rename_i hb
        cases h
        subst hb
        refine ⟨above, rfl, ?_, fun base' => by simp [openedAfter]⟩
        cases b with
        | round =>
          rw [List.count_cons_self] at hcount
          subst hcount
          exact Option.some.inj hd
        | square =>
          cases hd
          simpa using hcount
        | curly =>
          cases hd
          simpa using hcount
      · cases h

theorem exists_reads_of_parenDepth {r : Region} {depth d : Nat} {x : Role}
    {above base mid : List Bracket} (hd : parenDepth r depth x = some d)
    (hcount : above.count .round = depth)
    (h : Reads (above ++ .round :: base) (bracketOf r x) mid) :
    ∃ above', mid = above' ++ .round :: base ∧ above'.count .round = d ∧
      ∀ base', Reads (above ++ base') (bracketOf r x) (above' ++ base') := by
  cases r with
  | literal q =>
    cases hd
    cases h
    exact ⟨above, rfl, hcount, fun _ => reads_nil _⟩
  | code =>
    have hone : ∀ opened left, Reads opened (bracketOf .code x) left ↔
        openedAfter opened x = some left := by
      intro opened left
      cases x with
      | plain => rfl
      | quote q => rfl
      | opening b => exact reads_cons_iff.trans (by simp [Reads])
      | closing b => exact reads_cons_iff.trans (by simp [Reads])
    simp only [hone] at h ⊢
    exact exists_openedAfter_of_parenDepth hd hcount h

theorem reads_of_closeParenFrom {r : Region} {depth : Nat} {s inside rest : List α}
    {above base left : List Bracket} (hclose : closeParenFrom r depth s = some (inside, rest))
    (hcount : above.count .round = depth)
    (h : Reads (above ++ .round :: base) (bracketsFrom r inside) left) :
    ∃ above', left = above' ++ .round :: base ∧ .round ∉ above' ∧
      ∀ base', Reads (above ++ base') (bracketsFrom r inside) (above' ++ base') := by
  induction s generalizing r depth inside above with
  | nil => cases hclose
  | cons c cs ih =>
    rw [closeParenFrom] at hclose
    split at hclose
    · rename_i hd
      cases hclose
      cases h
      -- the outermost parenthesis is closed, so no other one is open
      rw [(parenDepth_eq_none hd).1] at hcount
      exact ⟨above, rfl, List.count_eq_zero.1 hcount, fun _ => reads_nil _⟩
    · rename_i d hd
      simp only [Option.map_eq_some_iff, Prod.exists, Prod.mk.injEq] at hclose
      obtain ⟨inside', rest', hcs, rfl, rfl⟩ := hclose
      obtain ⟨mid, hmid, hrest⟩ := reads_append_iff.1 h
      obtain ⟨above', rfl, hcount', hframe⟩ := exists_reads_of_parenDepth hd hcount hmid
      obtain ⟨above'', hleft, hround, hframe'⟩ := ih hcs hcount' hrest
      exact ⟨above'', hleft, hround, fun base' => (hframe base').append (hframe' base')⟩

/-- What stands between a parenthesis and the one that closes it is well nested by itself, if the
text around it is. -/
theorem reads_of_closeParen? {s inside rest : List α} {base left : List Bracket}
    (hclose : closeParen? s = some (inside, rest))
    (h : Reads (.round :: base) (bracketsFrom .code inside) (.round :: left)) :
    left = base ∧ ∀ base', Reads base' (bracketsFrom .code inside) base' := by
  have hempty : ([] : List Bracket).count .round = 0 := rfl
  obtain ⟨above, hleft, hround, hframe⟩ := reads_of_closeParenFrom hclose hempty h
  cases above with
  | nil => exact ⟨(List.cons.inj hleft).2, hframe⟩
  | cons b above =>
    obtain ⟨rfl, -⟩ := List.cons.inj hleft
    exact absurd List.mem_cons_self hround

end Scan

end Pseudocode
