import Pseudocode.Proofs.Text
import Pseudocode.Scan.Paren
import Pseudocode.Scan.TopLevel

/-!
# Parts of scanned texts

What a scan cuts out of a text are parts of it.

* `subset_of_mem_splitTopLevel`, `cutTopLevel_join` : the pieces between separators.
* `eq_append_of_breakCode?` : the two sides of a place in code.
* `eq_append_of_closeParen?` : **what stands before a closing parenthesis ends in code.**
-/

namespace Pseudocode

namespace Scan

variable {α : Type} [Symbol α]

@[simp] theorem Region.afterAll_nil (r : Region) : r.afterAll ([] : List α) = r := rfl

@[simp] theorem Region.afterAll_cons (r : Region) (c : α) (s : List α) :
    r.afterAll (c :: s) = (r.after (role c)).afterAll s := rfl

@[simp] theorem Region.afterAll_append (r : Region) (s t : List α) :
    r.afterAll (s ++ t) = (r.afterAll s).afterAll t :=
  List.foldl_append ..

theorem subset_of_mem_cutFrom [DecidableEq α] {sep : α} {l : Level} {held s piece : List α}
    (h : piece ∈ cutFrom sep l held s) : piece ⊆ held ++ s := by
  induction s generalizing l held with
  | nil =>
    obtain rfl := List.mem_singleton.1 h
    simp
  | cons c cs ih =>
    simp only [cutFrom] at h
    split at h
    · obtain rfl | h := List.mem_cons.1 h
      · intro a ha
        simp_all
      · exact List.Subset.trans (ih h) fun a ha => by simp_all
    · exact List.Subset.trans (ih h) fun a ha => by simpa [or_assoc, or_left_comm] using ha

theorem subset_of_mem_splitTopLevel {sep : Char} {s piece : List Char}
    (h : piece ∈ splitTopLevel sep s) : piece ⊆ s := by
  obtain ⟨cut, hcut, rfl⟩ := List.mem_map.1 h
  exact List.Subset.trans (Text.trim_subset cut) (subset_of_mem_cutFrom hcut)

theorem exists_mem_cutFrom [DecidableEq α] {sep : α} {l : Level} {held s : List α} {c : α}
    (h : c ∈ held ∨ c ∈ s) : c = sep ∨ ∃ piece ∈ cutFrom sep l held s, c ∈ piece := by
  induction s generalizing l held with
  | nil => exact .inr ⟨_, List.mem_singleton_self _, by simpa using h⟩
  | cons d cs ih =>
    rw [cutFrom]
    split
    · rename_i hcut
      obtain hheld | rfl | hcs : c ∈ held ∨ c = d ∨ c ∈ cs := by simpa using h
      · exact .inr ⟨_, List.mem_cons_self, List.mem_reverse.2 hheld⟩
      · exact .inl (by simpa using (Bool.and_eq_true_iff.1 hcut).2)
      · obtain hsep | ⟨piece, hmem, hc⟩ := ih (.inr hcs)
        · exact .inl hsep
        · exact .inr ⟨piece, List.mem_cons_of_mem _ hmem, hc⟩
    · exact ih (by simpa [or_left_comm, or_assoc] using h)

theorem exists_mem_cutTopLevel [DecidableEq α] (sep : α) {s : List α} {c : α} (h : c ∈ s) :
    c = sep ∨ ∃ piece ∈ cutTopLevel sep s, c ∈ piece :=
  exists_mem_cutFrom (.inr h)

theorem notMem_of_mem_cutFrom [DecidableEq α] {sep : α} {held s piece : List α}
    (hs : ∀ c ∈ s, role c = .plain) (hheld : sep ∉ held)
    (h : piece ∈ cutFrom sep .start held s) : sep ∉ piece := by
  induction s generalizing held with
  | nil =>
    obtain rfl := List.mem_singleton.1 h
    simpa using hheld
  | cons c cs ih =>
    obtain ⟨hc, hcs⟩ := List.forall_mem_cons.1 hs
    have hlevel : Level.start.after .plain = .start := rfl
    have htop : Level.start.atTop .plain = true := rfl
    rw [cutFrom, hc, hlevel, htop, Bool.true_and] at h
    split at h
    · obtain rfl | h := List.mem_cons.1 h
      · simpa using hheld
      · exact ih hcs List.not_mem_nil h
    · rename_i hne
      have hsep : sep ≠ c := fun heq => hne (decide_eq_true heq.symm)
      exact ih hcs (List.not_mem_cons_of_ne_of_not_mem hsep hheld) h

theorem cutFrom_plain_append [DecidableEq α] {sep : α} {s : List α}
    (hs : ∀ c ∈ s, role c = .plain ∧ c ≠ sep) (held t : List α) :
    cutFrom sep .start held (s ++ t) = cutFrom sep .start (s.reverse ++ held) t := by
  induction s generalizing held with
  | nil => rfl
  | cons c cs ih =>
    obtain ⟨⟨hrole, hsep⟩, hcs⟩ := List.forall_mem_cons.1 hs
    have hlevel : Level.start.after .plain = .start := rfl
    rw [List.cons_append, cutFrom, hrole, hlevel, if_neg (by simp [hsep]), ih hcs]
    simp

/-- Pieces without quotes, brackets and separators are found again in what they are joined to. -/
theorem cutTopLevel_join {sep : Char} (hsep : role sep = .plain) {pieces : List (List Char)}
    (hne : pieces ≠ []) (h : ∀ piece ∈ pieces, ∀ c ∈ piece, role c = .plain ∧ c ≠ sep) :
    cutTopLevel sep (Text.join [sep] pieces) = pieces := by
  unfold cutTopLevel
  induction pieces with
  | nil => exact absurd rfl hne
  | cons piece pieces ih =>
    obtain ⟨hpiece, hpieces⟩ := List.forall_mem_cons.1 h
    cases pieces with
    | nil =>
      have hcut := cutFrom_plain_append hpiece [] []
      simpa [Text.join, cutFrom] using hcut
    | cons next rest =>
      have hlevel : Level.start.after .plain = .start := rfl
      have htop : Level.start.atTop .plain = true := rfl
      simp only [Text.join, List.append_assoc, List.singleton_append]
      rw [cutFrom_plain_append hpiece, cutFrom, hsep, hlevel, htop,
        ih (List.cons_ne_nil _ _) hpieces]
      simp

theorem eq_append_of_breakCodeFrom [BEq α] {sub s front rest : List α} {r : Region}
    (h : breakCodeFrom sub r s = some (front, rest)) : s = front ++ rest := by
  induction s generalizing r front with
  | nil => cases h
  | cons c cs ih =>
    simp only [breakCodeFrom] at h
    split at h
    · cases h
      rfl
    · simp only [Option.map_eq_some_iff, Prod.exists, Prod.mk.injEq] at h
      obtain ⟨front', rest', hcs, rfl, rfl⟩ := h
      rw [ih hcs, List.cons_append]

theorem eq_append_of_breakCode? [BEq α] {sub s front rest : List α}
    (h : breakCode? sub s = some (front, rest)) : s = front ++ rest := by
  unfold breakCode? at h
  split at h
  · cases h
  · exact eq_append_of_breakCodeFrom h

theorem eq_closing_of_parenDepth {r : Region} {depth : Nat} {x : Role}
    (h : parenDepth r depth x = none) : r = .code ∧ x = .closing .round := by
  unfold parenDepth at h
  split at h
  · cases h
  · rename_i hr
    split at h <;> cases h
    cases r with
    | code => exact ⟨rfl, rfl⟩
    | literal q => cases hr rfl

theorem eq_append_of_closeParenFrom {r : Region} {depth : Nat} {s inside rest : List α}
    (h : closeParenFrom r depth s = some (inside, rest)) :
    ∃ c, role c = .closing .round ∧ r.afterAll inside = .code ∧ s = inside ++ c :: rest := by
  induction s generalizing r depth inside with
  | nil => cases h
  | cons c cs ih =>
    simp only [closeParenFrom] at h
    split at h
    · rename_i hd
      cases h
      obtain ⟨rfl, hc⟩ := eq_closing_of_parenDepth hd
      exact ⟨c, hc, rfl, rfl⟩
    · simp only [Option.map_eq_some_iff, Prod.exists, Prod.mk.injEq] at h
      obtain ⟨inside', rest', hcs, rfl, rfl⟩ := h
      obtain ⟨c', hc', hr, rfl⟩ := ih hcs
      exact ⟨c', hc', hr, rfl⟩

/-- **What stands before a closing parenthesis ends in code.** -/
theorem eq_append_of_closeParen? {s inside rest : List α}
    (h : closeParen? s = some (inside, rest)) :
    ∃ c, role c = .closing .round ∧ Region.code.afterAll inside = .code ∧
      s = inside ++ c :: rest :=
  eq_append_of_closeParenFrom h

end Scan

end Pseudocode
