import Pseudocode.Proofs.Marks
import Pseudocode.Proofs.Scan.Grammar

/-!
# Texts cut at their top level

A symbol stands at the top level of a text if it lies in no literal and the brackets up to it,
itself among them, are opened as often as they are closed.  Behind a separator at the top level a
scan stands as at the start of a text, also if the separator is a bracket and the count was below
zero before it.  So what lies between two separators is cut no further when it is scanned by itself,
and spaces at its ends make no difference.

* `bracketDepth`, `AtTopLevel` : the count of brackets outside literals, and where it is zero.
* `Level.start_afterAll` : a scan keeps the region and the depth of what it has read.
* `mem_topLevelOffsets_iff` : where symbols are found at the top level.
* `CutsInto` : a text is cut into pieces, as a grammar.
* `splitTopLevel_exact` : **the parts of a text at its top level are exact and final.**
-/

namespace Pseudocode

namespace Scan

variable {α : Type} [Symbol α]

/-! ### The top level -/

/-- The brackets that a text opens outside literals, less those that it closes, whatever their
shapes. -/
def bracketDepth (s : List α) : Int :=
  (brackets s).countP Role.isOpening - (brackets s).countP Role.isClosing

/-- The symbol at the offset lies in no literal, and the brackets up to it and with it balance in
number. -/
def AtTopLevel (s : List α) (i : Nat) : Prop :=
  i < s.length ∧ ¬ InLiteral (segments s) i ∧ bracketDepth (s.take (i + 1)) = 0

variable {s front back : List α} {c : α}

theorem bracketDepth_concat (s : List α) (c : α) :
    bracketDepth (s ++ [c]) = if (Region.code.afterAll s).holds (role c) then bracketDepth s
      else bracketDepth s + (role c).depthChange := by
  have hlast : brackets (s ++ [c]) = brackets s ++ bracketOf (Region.code.afterAll s) (role c) := by
    rw [brackets, bracketsFrom_append, bracketsFrom, bracketsFrom, List.append_nil, brackets]
  rw [bracketDepth, bracketDepth, hlast, List.countP_append, List.countP_append, bracketOf]
  cases (Region.code.afterAll s).holds (role c) with
  | true => simp
  | false =>
    cases role c with
    | opening b =>
      simp [Role.isBracket, Role.isOpening, Role.isClosing, Role.depthChange]
      omega
    | closing b =>
      simp [Role.isBracket, Role.isOpening, Role.isClosing, Role.depthChange]
      omega
    | _ => simp [Role.isBracket, Role.isOpening, Role.isClosing, Role.depthChange]

namespace Level

/-- The state after the symbols of a text. -/
def afterAll (l : Level) (s : List α) : Level := s.foldl (fun l c => l.after (role c)) l

@[simp] theorem afterAll_nil (l : Level) : l.afterAll ([] : List α) = l := rfl

@[simp] theorem afterAll_cons (l : Level) (c : α) (s : List α) :
    l.afterAll (c :: s) = (l.after (role c)).afterAll s := rfl

@[simp] theorem afterAll_append (l : Level) (s t : List α) :
    l.afterAll (s ++ t) = (l.afterAll s).afterAll t :=
  List.foldl_append ..

theorem start_afterAll (s : List α) :
    Level.start.afterAll s = ⟨Region.code.afterAll s, bracketDepth s⟩ := by
  induction s using List.reverseRecOn with
  | nil => rfl
  | append_singleton s c ih =>
    rw [afterAll_append, ih, bracketDepth_concat, Region.afterAll_append]
    rfl

theorem afterAll_of_plain (l : Level) (h : ∀ c ∈ s, role c = .plain) : l.afterAll s = l := by
  have hplain : l.after .plain = l := by
    rw [after, Region.after_of_isQuote_eq_false rfl]
    simp [Role.depthChange]
  induction s with
  | nil => rfl
  | cons c cs ih =>
    obtain ⟨hc, hcs⟩ := List.forall_mem_cons.1 h
    rw [afterAll_cons, hc, hplain, ih hcs]

/-- **Behind a symbol at the top level a scan stands as at the start,** whatever its role. -/
theorem after_eq_start {l : Level} {x : Role} (h : l.atTop x = true) : l.after x = .start := by
  obtain ⟨hcode, hdepth⟩ := Bool.and_eq_true_iff.1 h
  have hregion : l.region.after x = .code := by
    cases hr : l.region with
    | code =>
      rw [hr] at hcode
      exact Region.after_of_isQuote_eq_false (by simpa [Region.holds] using hcode) .code
    | literal q =>
      rw [hr] at hcode
      cases hcode
  have hzero : (l.after x).depth = 0 := by simpa using hdepth
  calc l.after x
    _ = ⟨l.region.after x, (l.after x).depth⟩ := rfl
    _ = .start := by rw [hregion, hzero]; rfl

end Level

theorem atTop_iff (hs : s = front ++ c :: back) :
    (Level.start.afterAll front).atTop (role c) = true ↔ AtTopLevel s front.length := by
  have hlit := (decomposes_segments s).holds_iff hs
  have htake : s.take (front.length + 1) = front ++ [c] := by
    rw [hs, List.append_cons, List.take_left' (by simp)]
  have hlength : front.length < s.length := by simp [hs]
  have hdepth : ((Level.start.afterAll front).after (role c)).depth =
      bracketDepth (front ++ [c]) := by
    have hlevel := Level.start_afterAll (front ++ [c])
    rw [Level.afterAll_append] at hlevel
    exact congrArg Level.depth hlevel
  rw [Level.atTop, hdepth, Level.start_afterAll, Bool.and_eq_true, Bool.not_eq_true', beq_iff_eq,
    AtTopLevel, htake, ← hlit, Bool.not_eq_true]
  exact (and_iff_right hlength).symm

/-! ### Offsets -/

variable {p : α → Bool}

theorem mem_offsetsFrom_iff {l : Level} {pos i : Nat} :
    i ∈ offsetsFrom p l pos s ↔ ∃ front c back, s = front ++ c :: back ∧ i = pos + front.length ∧
      p c = true ∧ (l.afterAll front).atTop (role c) = true := by
  induction s generalizing l pos with
  | nil => simp [offsetsFrom]
  | cons d s ih =>
    have hmem : i ∈ offsetsFrom p l pos (d :: s) ↔
        (i = pos ∧ p d = true ∧ l.atTop (role d) = true) ∨
          i ∈ offsetsFrom p (l.after (role d)) (pos + 1) s := by
      rw [offsetsFrom]
      split
      · rename_i hd
        rw [Bool.and_eq_true] at hd
        simp [hd]
      · rename_i hd
        rw [Bool.and_eq_true, and_comm] at hd
        simp [hd]
    rw [hmem, ih]
    constructor
    · rintro (⟨rfl, hp, htop⟩ | ⟨front, c, back, rfl, rfl, hp, htop⟩)
      · exact ⟨[], d, s, rfl, rfl, hp, htop⟩
      · exact ⟨d :: front, c, back, rfl, by simp only [List.length_cons]; omega, hp, htop⟩
    · rintro ⟨front, c, back, hs, rfl, hp, htop⟩
      cases front with
      | nil =>
        obtain ⟨rfl, rfl⟩ := List.cons.inj hs
        exact .inl ⟨rfl, hp, htop⟩
      | cons e front =>
        obtain ⟨rfl, rfl⟩ := List.cons_eq_cons.1 hs
        exact .inr ⟨front, c, back, rfl, by simp only [List.length_cons]; omega, hp, htop⟩

/-- **Symbols are found exactly where they stand at the top level.** -/
theorem mem_topLevelOffsets_iff {i : Nat} :
    i ∈ topLevelOffsets p s ↔ AtTopLevel s i ∧ ∃ c, s[i]? = some c ∧ p c = true := by
  rw [topLevelOffsets, mem_offsetsFrom_iff]
  constructor
  · rintro ⟨front, c, back, hs, rfl, hp, htop⟩
    rw [Nat.zero_add]
    exact ⟨(atTop_iff hs).1 htop, c, by simp [hs], hp⟩
  · rintro ⟨htop, c, hc, hp⟩
    obtain ⟨front, back, hs, rfl⟩ := exists_append_of_getElem? hc
    exact ⟨front, c, back, hs, (Nat.zero_add _).symm, hp, (atTop_iff hs).2 htop⟩

theorem pairwise_offsetsFrom (p : α → Bool) (l : Level) (pos : Nat) (s : List α) :
    (offsetsFrom p l pos s).Pairwise (· < ·) := by
  induction s generalizing l pos with
  | nil => exact List.Pairwise.nil
  | cons c s ih =>
    rw [offsetsFrom]
    split
    · refine List.pairwise_cons.2 ⟨fun i hi => ?_, ih _ _⟩
      obtain ⟨front, -, -, -, rfl, -⟩ := mem_offsetsFrom_iff.1 hi
      omega
    · exact ih _ _

/-! ### Pieces -/

/-- In the text no separator stands at the top level. -/
def Unsplit (sep : α) (s : List α) : Prop :=
  ∀ front back, s = front ++ sep :: back → (Level.start.afterAll front).atTop (role sep) = false

/-- The text is cut into pieces at its separators at the top level. -/
inductive CutsInto (sep : α) : List (List α) → List α → Prop
  | last {piece : List α} (h : Unsplit sep piece) : CutsInto sep [piece] piece
  | more {piece s : List α} {pieces : List (List α)} (h : Unsplit sep piece)
    (htop : (Level.start.afterAll piece).atTop (role sep) = true) (hs : CutsInto sep pieces s) :
    CutsInto sep (piece :: pieces) (piece ++ sep :: s)

variable {sep : α} {pieces : List (List α)}

theorem unsplit_nil (sep : α) : Unsplit sep [] := by
  intro front back h
  simp at h

theorem Unsplit.concat (h : Unsplit sep s)
    (hc : c = sep → (Level.start.afterAll s).atTop (role c) = false) : Unsplit sep (s ++ [c]) := by
  intro front back heq
  obtain ⟨rest, rfl⟩ | ⟨front', rfl, hlast⟩ := append_eq_append_cons heq
  · exact h front rest rfl
  · cases front' with
    | nil =>
      obtain ⟨rfl, -⟩ := List.cons.inj hlast
      rw [List.append_nil]
      exact hc rfl
    | cons d front' => simp at hlast

/-- Without the symbols in front of it that are neither quotes nor brackets, and without what
follows it, a part of a piece is cut no further either. -/
theorem Unsplit.mid {mid : List α} (h : Unsplit sep (front ++ (mid ++ back)))
    (hfront : ∀ c ∈ front, role c = .plain) : Unsplit sep mid := by
  intro before rest hmid
  have hbefore := h (front ++ before) (rest ++ back) (by simp [hmid])
  rwa [Level.afterAll_append, Level.afterAll_of_plain _ hfront] at hbefore

theorem cutsInto_cutFrom [DecidableEq α] {l : Level} (held : List α)
    (hlevel : Level.start.afterAll held.reverse = l) (hheld : Unsplit sep held.reverse)
    (s : List α) : CutsInto sep (cutFrom sep l held s) (held.reverse ++ s) := by
  induction s generalizing l held with
  | nil =>
    rw [List.append_nil]
    exact .last hheld
  | cons c s ih =>
    rw [cutFrom]
    split
    · rename_i hcut
      simp only [Bool.and_eq_true, decide_eq_true_eq] at hcut
      obtain ⟨htop, rfl⟩ := hcut
      rw [Level.after_eq_start htop]
      exact .more hheld (by rwa [hlevel]) (ih [] rfl (unsplit_nil c))
    · rename_i hcut
      have hnext := @ih (l.after (role c)) (c :: held)
      rw [List.reverse_cons, List.append_assoc] at hnext
      refine hnext (by rw [Level.afterAll_append, hlevel]; rfl) (hheld.concat ?_)
      rintro rfl
      rw [hlevel]
      simpa using hcut

/-- **A text is cut at all separators at its top level and nowhere else.** -/
theorem cutsInto_cutTopLevel [DecidableEq α] (sep : α) (s : List α) :
    CutsInto sep (cutTopLevel sep s) s :=
  cutsInto_cutFrom [] rfl (unsplit_nil sep) s

theorem CutsInto.exists_eq_cons (h : CutsInto sep pieces s) :
    ∃ piece rest, pieces = piece :: rest := by
  cases h <;> exact ⟨_, _, rfl⟩

theorem CutsInto.unsplit (h : CutsInto sep pieces s) : ∀ piece ∈ pieces, Unsplit sep piece := by
  induction h with
  | last h => exact List.forall_mem_singleton.2 h
  | more h _ _ ih => exact List.forall_mem_cons.2 ⟨h, ih⟩

theorem cutTopLevel_of_unsplit [DecidableEq α] (h : Unsplit sep s) : cutTopLevel sep s = [s] := by
  have hcuts := cutsInto_cutTopLevel sep s
  generalize cutTopLevel sep s = pieces at hcuts
  cases hcuts with
  | last => rfl
  | more _ htop _ =>
    rw [h _ _ rfl] at htop
    cases htop

theorem CutsInto.join {sep : Char} {pieces : List (List Char)} {s : List Char}
    (h : CutsInto sep pieces s) : Text.join [sep] pieces = s := by
  induction h with
  | last => rfl
  | more _ _ hs ih =>
    obtain ⟨next, rest, rfl⟩ := hs.exists_eq_cons
    rw [Text.join, ih, List.append_assoc, List.singleton_append]
    exact List.cons_ne_nil _ _

/-- The offsets of the separators in a text that is joined from pieces, where the first piece has
the offset `start`. -/
def joints (start : Nat) : List (List α) → List Nat
  | [] => []
  | [_] => []
  | piece :: pieces => (start + piece.length) :: joints (start + piece.length + 1) pieces

omit [Symbol α] in
theorem length_joints (start : Nat) (piece : List α) (pieces : List (List α)) :
    (joints start (piece :: pieces)).length = pieces.length := by
  induction pieces generalizing start piece with
  | nil => rfl
  | cons next pieces ih =>
    rw [joints, List.length_cons, ih, List.length_cons]
    exact List.cons_ne_nil _ _

theorem offsetsFrom_unsplit_append [DecidableEq α] (h : Unsplit sep s) (pos : Nat) (t : List α) :
    offsetsFrom (fun c => decide (c = sep)) .start pos (s ++ t) =
      offsetsFrom (fun c => decide (c = sep)) (Level.start.afterAll s) (pos + s.length) t := by
  induction s using List.reverseRecOn generalizing t with
  | nil => rfl
  | append_singleton s c ih =>
    have hs : Unsplit sep s := fun front back heq => h front (back ++ [c]) (by simp [heq])
    rw [List.append_assoc, ih hs, List.singleton_append, offsetsFrom, if_neg, Level.afterAll_append,
      List.length_append, Nat.add_assoc]
    · rfl
    · intro hcut
      simp only [Bool.and_eq_true, decide_eq_true_eq] at hcut
      obtain ⟨htop, rfl⟩ := hcut
      rw [h s [] rfl] at htop
      cases htop

theorem CutsInto.offsets [DecidableEq α] (h : CutsInto sep pieces s) (pos : Nat) :
    offsetsFrom (fun c => decide (c = sep)) .start pos s = joints pos pieces := by
  induction h generalizing pos with
  | @last piece h =>
    have hone := offsetsFrom_unsplit_append h pos []
    rwa [List.append_nil] at hone
  | more h htop hs ih =>
    obtain ⟨next, rest, rfl⟩ := hs.exists_eq_cons
    rw [offsetsFrom_unsplit_append h, offsetsFrom, if_pos (by simp [htop]),
      Level.after_eq_start htop, ih]
    rfl

/-- **The parts of a text at its top level are exact and final.**  They are the trimmed pieces
between the separators that lie in no literal where brackets balance in number, the separators make
the text of the pieces again, and there is one part more than there are separators.  None of the
parts is split any further. -/
theorem splitTopLevel_exact (sep : Char) (s : List Char) :
    ∃ separators pieces,
      (∀ i, i ∈ separators ↔ s[i]? = some sep ∧ AtTopLevel s i) ∧ separators.Pairwise (· < ·) ∧
      splitTopLevel sep s = pieces.map Text.trim ∧ Text.join [sep] pieces = s ∧
      joints 0 pieces = separators ∧ (splitTopLevel sep s).length = separators.length + 1 ∧
      ∀ part ∈ splitTopLevel sep s, splitTopLevel sep part = [part] := by
  have hcuts := cutsInto_cutTopLevel sep s
  have hjoints := (hcuts.offsets 0).symm
  refine ⟨topLevelOffsets (fun c => decide (c = sep)) s, cutTopLevel sep s, fun i => ?_,
    pairwise_offsetsFrom _ _ _ _, rfl, hcuts.join, hjoints, ?_, ?_⟩
  · rw [mem_topLevelOffsets_iff, and_comm]
    simp
  · obtain ⟨piece, rest, hpieces⟩ := hcuts.exists_eq_cons
    rw [splitTopLevel, List.length_map, topLevelOffsets, ← hjoints, hpieces, length_joints,
      List.length_cons]
  · intro part hpart
    obtain ⟨piece, hpiece, rfl⟩ := List.mem_map.1 hpart
    obtain ⟨front, back, hfront, -, heq⟩ := Text.exists_trim_eq piece
    have hwhole := hcuts.unsplit piece hpiece
    rw [heq] at hwhole
    have hpart : Unsplit sep (Text.trim piece) :=
      hwhole.mid (marks_eq_nil_iff.1 (marks_of_isSpace hfront))
    rw [splitTopLevel, cutTopLevel_of_unsplit hpart, List.map_singleton, Text.trim_trim]

/-- Brackets that are separators themselves, below zero and above it, and one in a literal. -/
example : splitTopLevel '(' ") a ( b \"(\" ) (( c".toList =
    [") a".toList, "b \"(\" )".toList, "( c".toList] := by decide

end Scan

end Pseudocode
