import Pseudocode.Text.Decimal

/-!
# Integers that are read back

Digits never make a number smaller, so if all of them fit in 64 bits then so does every front of
them, and reading them stops for a number that is too large only.  An integer of 64 bits that is
written in base 10 is read back as itself.

* `IsDecimal` : the texts that stand for integers.
* `integer_eq_ok_iff` : **what is read is digits, perhaps behind a sign, with a value that fits.**
* `integer_toString` : **an integer of 64 bits is read back as it was written.**
-/

namespace Pseudocode

namespace Text

/-- The integer can be written with 64 bits, of which one is its sign. -/
def FitsInt64 (k : Int) : Prop := -9223372036854775808 ≤ k ∧ k ≤ 9223372036854775807

instance (k : Int) : Decidable (FitsInt64 k) := inferInstanceAs (Decidable (_ ∧ _))

/-- The text is digits, perhaps behind a sign, and stands for the integer. -/
def IsDecimal (s : List Char) (k : Int) : Prop :=
  ∃ digits : List Char, digits ≠ [] ∧ (∀ c ∈ digits, c.isDigit = true) ∧
    (((s = digits ∨ s = '+' :: digits) ∧ k = (Nat.ofDigitChars 10 digits 0 : Int)) ∨
      (s = '-' :: digits ∧ k = -(Nat.ofDigitChars 10 digits 0 : Int)))

/-! ### Integers that are read -/

theorem le_ofDigitChars (s : List Char) (n : Nat) : n ≤ Nat.ofDigitChars 10 s n := by
  induction s generalizing n with
  | nil => exact Nat.le_refl n
  | cons c cs ih =>
    have hle := ih (10 * n + (c.toNat - '0'.toNat))
    rw [Nat.ofDigitChars_cons]
    omega

theorem digitsFrom_eq_ok {s : List Char} {n : Nat} (hs : ∀ c ∈ s, c.isDigit = true)
    (hfits : Nat.ofDigitChars 10 s n < Nat.pow 2 64) :
    digitsFrom n s = .ok (Nat.ofDigitChars 10 s n) := by
  induction s generalizing n with
  | nil => rfl
  | cons c cs ih =>
    obtain ⟨hc, hcs⟩ := List.forall_mem_cons.1 hs
    rw [Nat.ofDigitChars_cons, Nat.mul_comm] at hfits ⊢
    have hfront := Nat.lt_of_le_of_lt (le_ofDigitChars cs _) hfits
    simp only [digitsFrom, hc, if_true, hfront, ih hcs hfits]

theorem digitsFrom_eq_ok_iff {s : List Char} {n m : Nat} (hn : n < Nat.pow 2 64) :
    digitsFrom n s = .ok m ↔
      (∀ c ∈ s, c.isDigit = true) ∧ m = Nat.ofDigitChars 10 s n ∧ m < Nat.pow 2 64 := by
  constructor
  · intro h
    induction s generalizing n with
    | nil =>
      cases h
      exact ⟨List.forall_mem_nil _, rfl, hn⟩
    | cons c cs ih =>
      rw [digitsFrom] at h
      split at h
      · rename_i hc
        simp only at h
        split at h
        · rename_i hfits
          obtain ⟨hcs, hm, hlt⟩ := ih hfits h
          rw [Nat.mul_comm] at hm
          exact ⟨List.forall_mem_cons.2 ⟨hc, hcs⟩, by rw [Nat.ofDigitChars_cons]; exact hm, hlt⟩
        · cases h
      · cases h
  · rintro ⟨hs, rfl, hlt⟩
    exact digitsFrom_eq_ok hs hlt

theorem natural_eq_ok_iff {s : List Char} {n : Nat} :
    natural s = .ok n ↔ s ≠ [] ∧ (∀ c ∈ s, c.isDigit = true) ∧ n = Nat.ofDigitChars 10 s 0 ∧
      n < Nat.pow 2 64 := by
  rw [natural]
  cases s with
  | nil => simp
  | cons c cs => simp [digitsFrom_eq_ok_iff (Nat.pow_pos (by omega) : 0 < Nat.pow 2 64)]

theorem bind_ite_eq_ok_iff {read : Except IntegerError Nat} {fits : Nat → Prop}
    [DecidablePred fits] {value : Nat → Int} {e : IntegerError} {k : Int} :
    (read >>= fun n => if fits n then .ok (value n) else .error e) = .ok k ↔
      ∃ n, read = .ok n ∧ fits n ∧ k = value n := by
  cases read with
  | error e => simp [bind, Except.bind]
  | ok n =>
    by_cases hn : fits n
    · simp [bind, Except.bind, hn, eq_comm]
    · simp [bind, Except.bind, hn]

theorem integer_plus_eq_ok_iff {s : List Char} {k : Int} :
    integer ('+' :: s) = .ok k ↔ ∃ n, natural s = .ok n ∧ n < Nat.pow 2 63 ∧ k = (n : Int) :=
  bind_ite_eq_ok_iff

theorem integer_minus_eq_ok_iff {s : List Char} {k : Int} :
    integer ('-' :: s) = .ok k ↔ ∃ n, natural s = .ok n ∧ n ≤ Nat.pow 2 63 ∧ k = -(n : Int) :=
  bind_ite_eq_ok_iff

theorem integer_unsigned_eq_ok_iff {s : List Char} {k : Int} (hplus : s.head? ≠ some '+')
    (hminus : s.head? ≠ some '-') :
    integer s = .ok k ↔ ∃ n, natural s = .ok n ∧ n < Nat.pow 2 63 ∧ k = (n : Int) := by
  unfold integer
  split
  rename_i negative digits hsign
  split at hsign
  · exact absurd rfl hplus
  · exact absurd rfl hminus
  · cases hsign
    exact bind_ite_eq_ok_iff

/-- **What is read is digits, perhaps behind a sign, with a value that fits in 64 bits.** -/
theorem integer_eq_ok_iff {s : List Char} {k : Int} :
    integer s = .ok k ↔ IsDecimal s k ∧ FitsInt64 k := by
  have h63 : Nat.pow 2 63 = 9223372036854775808 := rfl
  have h64 : Nat.pow 2 64 = 18446744073709551616 := rfl
  constructor
  · intro h
    by_cases hplus : s.head? = some '+'
    · obtain ⟨digits, rfl⟩ := List.head?_eq_some_iff.1 hplus
      obtain ⟨n, hread, hn, rfl⟩ := integer_plus_eq_ok_iff.1 h
      obtain ⟨hne, hdigits, hvalue, -⟩ := natural_eq_ok_iff.1 hread
      exact ⟨⟨digits, hne, hdigits, .inl ⟨.inr rfl, by rw [hvalue]⟩⟩, by omega, by omega⟩
    · by_cases hminus : s.head? = some '-'
      · obtain ⟨digits, rfl⟩ := List.head?_eq_some_iff.1 hminus
        obtain ⟨n, hread, hn, rfl⟩ := integer_minus_eq_ok_iff.1 h
        obtain ⟨hne, hdigits, hvalue, -⟩ := natural_eq_ok_iff.1 hread
        exact ⟨⟨digits, hne, hdigits, .inr ⟨rfl, by rw [hvalue]⟩⟩, by omega, by omega⟩
      · obtain ⟨n, hread, hn, rfl⟩ := (integer_unsigned_eq_ok_iff hplus hminus).1 h
        obtain ⟨hne, hdigits, hvalue, -⟩ := natural_eq_ok_iff.1 hread
        exact ⟨⟨s, hne, hdigits, .inl ⟨.inl rfl, by rw [hvalue]⟩⟩, by omega, by omega⟩
  · rintro ⟨⟨digits, hne, hdigits, ⟨rfl | rfl, hk⟩ | ⟨rfl, hk⟩⟩, hlow, hhigh⟩
    · have hread := natural_eq_ok_iff.2 ⟨hne, hdigits, rfl, by omega⟩
      have hhead : ∀ c, c.isDigit = false → s.head? ≠ some c := by
        intro c hc hhead
        rw [hdigits c (List.mem_of_head? hhead)] at hc
        cases hc
      exact (integer_unsigned_eq_ok_iff (hhead '+' (by decide)) (hhead '-' (by decide))).2
        ⟨_, hread, by omega, hk⟩
    · have hread := natural_eq_ok_iff.2 ⟨hne, hdigits, rfl, by omega⟩
      exact integer_plus_eq_ok_iff.2 ⟨_, hread, by omega, hk⟩
    · have hread := natural_eq_ok_iff.2 ⟨hne, hdigits, rfl, by omega⟩
      exact integer_minus_eq_ok_iff.2 ⟨_, hread, by omega, hk⟩

/-! ### Integers that are written -/

theorem isDigit_of_mem_toDigits {n : Nat} : ∀ c ∈ Nat.toDigits 10 n, c.isDigit = true :=
  fun _ hc => Nat.isDigit_of_mem_toDigits (by omega) (by omega) hc

theorem toList_toString (k : Int) :
    (toString k).toList =
      if k < 0 then '-' :: Nat.toDigits 10 k.natAbs else Nat.toDigits 10 k.natAbs := by
  rw [Int.toString_eq_repr]
  cases k with
  | ofNat n =>
    rw [if_neg (by simp)]
    exact Nat.toList_repr
  | negSucc n =>
    rw [if_pos (Int.negSucc_lt_zero n), Int.repr, String.toList_append, Nat.toList_repr]
    rfl

theorem isDigit_of_mem_toString {k : Int} :
    ∀ c ∈ (toString k).toList, c = '-' ∨ c.isDigit = true := by
  intro c hc
  rw [toList_toString] at hc
  split at hc
  · obtain rfl | hc := List.mem_cons.1 hc
    · exact .inl rfl
    · exact .inr (isDigit_of_mem_toDigits c hc)
  · exact .inr (isDigit_of_mem_toDigits c hc)

theorem toString_ne_nil (k : Int) : (toString k).toList ≠ [] := by
  rw [toList_toString]
  split
  · exact List.cons_ne_nil _ _
  · exact Nat.toDigits_ne_nil

/-- An integer is written as it is read. -/
theorem isDecimal_toString (k : Int) : IsDecimal (toString k).toList k := by
  have hvalue : Nat.ofDigitChars 10 (Nat.toDigits 10 k.natAbs) 0 = k.natAbs :=
    Nat.ofDigitChars_toDigits (by omega) (by omega)
  refine ⟨Nat.toDigits 10 k.natAbs, Nat.toDigits_ne_nil, isDigit_of_mem_toDigits, ?_⟩
  rw [hvalue, toList_toString]
  split
  · exact .inr ⟨rfl, by omega⟩
  · exact .inl ⟨.inl rfl, by omega⟩

/-- **An integer of 64 bits is read back as it was written.** -/
theorem integer_toString {k : Int} (hk : FitsInt64 k) : integer (toString k).toList = .ok k :=
  integer_eq_ok_iff.2 ⟨isDecimal_toString k, hk⟩

end Text

end Pseudocode
