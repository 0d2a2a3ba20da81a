import Pseudocode.Proofs.Scan.Segment
import Pseudocode.Scan.Code

/-!
# Flags and regions

The flags of a scan say no more than the region in which it stands: at most one literal is open, and
which one has just been closed matters for one symbol only.  So a scan with flags finds the segments
of a text.

* `Flags.Follow` : **the invariant that relates the flags to the region.**
* `Flags.Follow.next`, `Flags.Follow.inLiteral` : a symbol keeps it, and is taken alike.
* `unclosed_eq` : an open literal, by the region in which a scan ends.
* `mapCode_eq` : **the code of a text is mapped segment by segment.**
-/

namespace Pseudocode

namespace Scan

variable {α : Type} [Symbol α]

/-! ### The invariant -/

/-- The flags are those of a scan that stands in the region. -/
structure Flags.Follow (flags : Flags) (r : Region) : Prop where
  double : flags.inDouble = decide (r = .literal .double)
  single : flags.inSingle = decide (r = .literal .single)

namespace Flags

variable {flags : Flags} {r : Region}

theorem follow_start : start.Follow .code := ⟨rfl, rfl⟩

theorem Follow.atEnd (h : flags.Follow r) : flags.atEnd.Follow r := ⟨h.double, h.single⟩

theorem Follow.next (h : flags.Follow r) (x : Role) : (flags.next x).Follow (r.after x) := by
  obtain ⟨inDouble, inSingle, closing⟩ := flags
  obtain ⟨rfl, rfl⟩ := h
  cases x with
  | quote q => rcases q with _ | _ <;> rcases r with _ | (_ | _) <;> exact ⟨rfl, rfl⟩
  | plain | opening | closing => cases r <;> exact ⟨rfl, rfl⟩

theorem Follow.inLiteral (h : flags.Follow r) (x : Role) :
    (flags.next x).inLiteral = r.holds x := by
  obtain ⟨inDouble, inSingle, closing⟩ := flags
  obtain ⟨rfl, rfl⟩ := h
  cases x with
  | quote q => rcases q with _ | _ <;> rcases r with _ | (_ | _) <;> rfl
  | plain | opening | closing => rcases r with _ | (_ | _) <;> rfl

theorem Follow.unterminated (h : flags.Follow r) : flags.unterminated = (r != .code) := by
  rw [Flags.unterminated, h.double, h.single]
  rcases r with _ | (_ | _) <;> rfl

theorem Follow.afterAll (h : flags.Follow r) (s : List α) :
    (flags.afterAll s).Follow (r.afterAll s) := by
  induction s generalizing flags r with
  | nil => exact h
  | cons c cs ih => exact ih (h.next (role c))

end Flags

theorem unclosed_eq (s : List α) : unclosed s = (Region.code.afterAll s != .code) :=
  (Flags.follow_start.afterAll s).atEnd.unterminated

/-! ### Mapped code, segment by segment -/

variable {f : List α → List α} {flags : Flags} {q : Quote}

/-- What is held in front of a literal is part of it. -/
theorem flatMap_segmentsFrom_literal (f : List α → List α) (q : Quote) (held before s : List α) :
    (segmentsFrom (.literal q) (held ++ before) s).flatMap (Segment.mapCode f) =
      before.reverse ++ (segmentsFrom (.literal q) held s).flatMap (Segment.mapCode f) := by
  induction s generalizing held with
  | nil => simp [segmentsFrom, Segment.mapCode]
  | cons c cs ih =>
    by_cases hc : role c = .quote q
    · simp [segmentsFrom_literal_close hc, Segment.mapCode]
    · rw [segmentsFrom_literal_inner hc, segmentsFrom_literal_inner hc, ← List.cons_append, ih]

section Steps

variable {r : Region} {c : α}

theorem mapCodeFrom_enter (h : flags.Follow r) (hc : r.holds (role c) = true) (held cs : List α) :
    mapCodeFrom f flags false held (c :: cs) =
      f held.reverse ++ mapCodeFrom f (flags.next (role c)) true [c] cs := by
  rw [mapCodeFrom, h.inLiteral, hc]
  rfl

theorem mapCodeFrom_leave (h : flags.Follow r) (hc : r.holds (role c) = false)
    (held cs : List α) :
    mapCodeFrom f flags true held (c :: cs) =
      held.reverse ++ mapCodeFrom f (flags.next (role c)) false [c] cs := by
  rw [mapCodeFrom, h.inLiteral, hc]
  rfl

theorem mapCodeFrom_stay (h : flags.Follow r) {inLiteral : Bool}
    (hc : r.holds (role c) = inLiteral) (held cs : List α) :
    mapCodeFrom f flags inLiteral held (c :: cs) =
      mapCodeFrom f (flags.next (role c)) inLiteral (c :: held) cs := by
  rw [mapCodeFrom, h.inLiteral, hc]
  cases inLiteral <;> rfl

end Steps

/-- What a scan makes of a text, by the region in which it stands.  In code it holds either a run
that is not empty or the literals just before. -/
theorem mapCodeFrom_eq (f : List α → List α) (s : List α) :
    (∀ flags held, Flags.Follow flags .code → held ≠ [] →
      mapCodeFrom f flags false held s =
        (segmentsFrom .code held s).flatMap (Segment.mapCode f)) ∧
    (∀ flags held, Flags.Follow flags .code →
      mapCodeFrom f flags true held s =
        held.reverse ++ (segmentsFrom .code [] s).flatMap (Segment.mapCode f)) ∧
    ∀ flags held q, Flags.Follow flags (.literal q) →
      mapCodeFrom f flags true held s =
        (segmentsFrom (.literal q) held s).flatMap (Segment.mapCode f) := by
  induction s with
  | nil =>
    refine ⟨fun flags held _ hne => ?_, fun flags held _ => ?_, fun flags held q _ => ?_⟩
    · simp [mapCodeFrom, released, segmentsFrom, consRun, hne, Segment.mapCode]
    · simp [mapCodeFrom, released, segmentsFrom, consRun]
    · simp [mapCodeFrom, released, segmentsFrom, Segment.mapCode]
  | cons c cs ih =>
    obtain ⟨ihRun, ihBehind, ihLiteral⟩ := ih
    refine ⟨fun flags held h hne => ?_, fun flags held h => ?_, fun flags held q h => ?_⟩
    · have hnext := h.next (role c)
      cases hc : (role c).isQuote with
      | true =>
        obtain ⟨q, hq⟩ := Role.isQuote_iff.1 hc
        rw [hq] at hnext
        rw [mapCodeFrom_enter h hc, hq, segmentsFrom_code_quote hq]
        simp [ihLiteral _ _ q hnext, consRun, hne, Segment.mapCode]
      | false =>
        rw [Region.after_of_isQuote_eq_false hc] at hnext
        rw [mapCodeFrom_stay h hc, segmentsFrom_code_plain hc]
        exact ihRun _ _ hnext (List.cons_ne_nil c held)
    · have hnext := h.next (role c)
      cases hc : (role c).isQuote with
      | true =>
        obtain ⟨q, hq⟩ := Role.isQuote_iff.1 hc
        rw [hq] at hnext
        rw [mapCodeFrom_stay h hc, hq, ihLiteral _ _ q hnext, segmentsFrom_code_quote hq]
        exact flatMap_segmentsFrom_literal f q [c] held cs
      | false =>
        rw [Region.after_of_isQuote_eq_false hc] at hnext
        rw [mapCodeFrom_leave h hc, segmentsFrom_code_plain hc]
        exact congrArg (held.reverse ++ ·) (ihRun _ _ hnext (List.cons_ne_nil c []))
    · have hnext := h.next (role c)
      have hholds : (Region.literal q).holds (role c) = true := rfl
      rw [mapCodeFrom_stay h hholds]
      by_cases hc : role c = .quote q
      · rw [hc, Region.after, if_pos rfl] at hnext
        rw [hc, ihBehind _ _ hnext, segmentsFrom_literal_close hc]
        rfl
      · rw [Region.literal_after_of_ne hc] at hnext
        rw [ihLiteral _ _ q hnext, segmentsFrom_literal_inner hc]

/-- **The code of a text is mapped segment by segment.** -/
theorem mapCode_eq (f : List α → List α) (s : List α) :
    mapCode f s =
      (if startsInCode s then [] else f []) ++ (segments s).flatMap (Segment.mapCode f) := by
  cases s with
  | nil => simp [mapCode, mapCodeFrom, released, startsInCode, segments, segmentsFrom, consRun]
  | cons c cs =>
    obtain ⟨hrun, -, hliteral⟩ := mapCodeFrom_eq f cs
    have hnext := Flags.follow_start.next (role c)
    rw [mapCode, segments, startsInCode]
    cases hc : (role c).isQuote with
    | true =>
      obtain ⟨q, hq⟩ := Role.isQuote_iff.1 hc
      rw [hq] at hnext
      rw [mapCodeFrom_enter Flags.follow_start hc, hq, segmentsFrom_code_quote hq]
      exact congrArg (f [] ++ ·) (hliteral _ _ q hnext)
    | false =>
      rw [Region.after_of_isQuote_eq_false hc] at hnext
      rw [mapCodeFrom_stay Flags.follow_start hc, segmentsFrom_code_plain hc]
      exact hrun _ _ hnext (List.cons_ne_nil c [])

end Scan

end Pseudocode
