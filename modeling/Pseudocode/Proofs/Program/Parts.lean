import Mathlib.Data.List.TakeWhile
import Pseudocode.Proofs.Program.Basic

/-!
# The parts of a program

A program is found in its lines by its markers.  `Delimits` says where they stand without searching
for them: the first start marker, and the first end marker after it.

* `splitOnP_isProgramStart` : the bodies of the main routines are the lines of the program, cut at
  its further start markers.
* `subset_of_ofLines?` : a program is made of the lines in which it is found.
* `exists_eq_append_of_ofLines?` : where its parts stand among them.
* `ofLines?_of_delimits`, `delimits_of_ofLines?` : **a program is found complete exactly if its
  markers are there.**
* `ofLines?_eq_none_iff`, `missingEnd_eq_none_iff` : the same for each of the two markers.
* `functionStep_start` and the like : what a line outside the main routine does.
-/

namespace Pseudocode

namespace Program

/-- The first start marker of the lines stands after `before`, and the first end marker after it
stands between `body` and `behind`. -/
structure Delimits (lines before : List SourceLine) (start : SourceLine)
    (body behind : List SourceLine) : Prop where
  before_noStart : ∀ l ∈ before, l.isProgramStart = false
  start_isStart : start.isProgramStart = true
  body_noEnd : ∀ l ∈ body, l.isProgramEnd = false
  lines_eq : ∃ ending : SourceLine, ending.isProgramEnd = true ∧
    lines = before ++ start :: (body ++ ending :: behind)

/-- The bodies of the routines are the lines between start markers. -/
theorem splitOnP_isProgramStart (ls : List SourceLine) :
    ls.splitOnP (·.isProgramStart) = (cutAtStarts ls).1 :: (cutAtStarts ls).2.map (·.body) := by
  induction ls with
  | nil => simp [cutAtStarts]
  | cons l ls ih =>
    rw [List.splitOnP_cons_eq_if_modifyHead, ih, cutAtStarts]
    split <;> simp_all

/-- The routine is made of lines of the given list. -/
structure MadeOf (s : MainRoutine) (ls : List SourceLine) : Prop where
  start_mem : s.start ∈ ls
  body_subset : s.body ⊆ ls

theorem cutAtStarts_subset (ls : List SourceLine) :
    (cutAtStarts ls).1 ⊆ ls ∧ ∀ s ∈ (cutAtStarts ls).2, MadeOf s ls := by
  induction ls with
  | nil => exact ⟨List.nil_subset _, List.forall_mem_nil _⟩
  | cons l ls ih =>
    obtain ⟨hbody, hroutines⟩ := ih
    have hothers : ∀ s ∈ (cutAtStarts ls).2, MadeOf s (l :: ls) := fun s hs =>
      ⟨List.mem_cons_of_mem l (hroutines s hs).start_mem,
        List.subset_cons_of_subset l (hroutines s hs).body_subset⟩
    simp only [cutAtStarts]
    split
    · refine ⟨List.nil_subset _, List.forall_mem_cons.2 ⟨?_, hothers⟩⟩
      exact ⟨List.mem_cons_self, List.subset_cons_of_subset l hbody⟩
    · exact ⟨List.cons_subset_cons l hbody, hothers⟩

variable {lines before body behind : List SourceLine} {start : SourceLine}

theorem subset_of_ofLines? {p : Program} (h : ofLines? lines = some p) :
    p.outside ⊆ lines ∧ ∀ s ∈ p.routines, MadeOf s lines := by
  have hbefore := (List.takeWhile_prefix (!·.isProgramStart) (l := lines)).subset
  have hdrop := (List.dropWhile_suffix (!·.isProgramStart) (l := lines)).subset
  simp only [ofLines?] at h
  split at h
  · cases h
  · rename_i start rest hstart
    rw [hstart] at hdrop
    obtain ⟨hmem, hrest⟩ := List.cons_subset.1 hdrop
    have hmain := (List.takeWhile_prefix (!·.isProgramEnd) (l := rest)).subset
    have hbehind := (List.dropWhile_suffix (!·.isProgramEnd) (l := rest)).subset
    obtain ⟨hbody, hothers⟩ := cutAtStarts_subset (rest.takeWhile (!·.isProgramEnd))
    have hroutines : ∀ s ∈ (⟨start, (cutAtStarts (rest.takeWhile (!·.isProgramEnd))).1⟩ ::
        (cutAtStarts (rest.takeWhile (!·.isProgramEnd))).2 : List MainRoutine),
        MadeOf s lines := by
      have hlines := List.Subset.trans hmain hrest
      refine List.forall_mem_cons.2 ⟨⟨hmem, List.Subset.trans hbody hlines⟩, fun s hs => ?_⟩
      exact ⟨hlines (hothers s hs).start_mem, List.Subset.trans (hothers s hs).body_subset hlines⟩
    split at h
    · cases h
      exact ⟨hbefore, hroutines⟩
    · rename_i ending behind hending
      cases h
      rw [hending] at hbehind
      refine ⟨List.append_subset.2 ⟨hbefore, ?_⟩, hroutines⟩
      exact List.Subset.trans (List.cons_subset.1 hbehind).2 hrest

/-- Where the parts of a program stand: the main routines between the first start marker and the
first end marker after it, and the other lines around them.  The end is missing where nothing is
behind the main routines, and it is then reported at the last line. -/
theorem exists_eq_append_of_ofLines? {p : Program} (h : ofLines? lines = some p) :
    ∃ before start main behind, lines = before ++ start :: (main ++ behind) ∧
      p.outside = before ++ behind.tail ∧
      p.routines = ⟨start, (cutAtStarts main).1⟩ :: (cutAtStarts main).2 ∧
      p.missingEnd = if behind.isEmpty then lines.getLast?.map (·.num) else none := by
  simp only [ofLines?] at h
  split at h
  · cases h
  · rename_i start rest hstart
    have hlines : lines = lines.takeWhile (!·.isProgramStart) ++ start :: rest := by
      rw [← hstart, List.takeWhile_append_dropWhile]
    refine ⟨_, start, rest.takeWhile (!·.isProgramEnd), rest.dropWhile (!·.isProgramEnd),
      by rwa [List.takeWhile_append_dropWhile], ?_⟩
    split at h
    · rename_i hend
      cases h
      have hlast : lines.getLast? = some (rest.getLast?.getD start) := by
        rw [hlines, List.getLast?_append, List.getLast?_cons, Option.some_or]
      rw [hend]
      exact ⟨by simp, rfl, by simp [hlast]⟩
    · rename_i ending behind hend
      cases h
      rw [hend]
      exact ⟨rfl, rfl, rfl⟩

theorem exists_mem_routines_name (p : Program) :
    ∃ s ∈ p.routines, p.name = s.start.programName := by
  unfold name routines
  cases h : p.others.getLast? with
  | none => exact ⟨p.first, List.mem_cons_self, rfl⟩
  | some s => exact ⟨s, List.mem_cons_of_mem _ (List.mem_of_getLast? h), rfl⟩

theorem ofLines?_of_delimits (h : Delimits lines before start body behind) :
    ofLines? lines =
      some ⟨before ++ behind, ⟨start, (cutAtStarts body).1⟩, (cutAtStarts body).2, none⟩ := by
  obtain ⟨hbefore, hstart, hbody, ending, hending, rfl⟩ := h
  have hb : ∀ l ∈ before, (!l.isProgramStart) = true := fun l hl => by simp [hbefore l hl]
  have he : ∀ l ∈ body, (!l.isProgramEnd) = true := fun l hl => by simp [hbody l hl]
  have hrest : (body ++ ending :: behind).dropWhile (!·.isProgramEnd) = ending :: behind := by
    rw [List.dropWhile_append_of_pos he, List.dropWhile_cons_of_neg (by simp [hending])]
  have hfront : (body ++ ending :: behind).takeWhile (!·.isProgramEnd) = body := by
    rw [List.takeWhile_append_of_pos he, List.takeWhile_cons_of_neg (by simp [hending]),
      List.append_nil]
  rw [ofLines?, List.dropWhile_append_of_pos hb, List.takeWhile_append_of_pos hb,
    List.dropWhile_cons_of_neg (by simp [hstart]), List.takeWhile_cons_of_neg (by simp [hstart]),
    List.append_nil]
  simp only [hrest, hfront]

/-- A program is found only where a start marker stands, and no end is missing only where an end
marker follows. -/
theorem delimits_of_ofLines? {p : Program} (h : ofLines? lines = some p)
    (hend : p.missingEnd = none) :
    ∃ before start body behind, Delimits lines before start body behind := by
  simp only [ofLines?] at h
  split at h
  · cases h
  · rename_i start rest hstart
    split at h
    · cases h
      cases hend
    · rename_i ending behind hending
      refine ⟨lines.takeWhile (!·.isProgramStart), start, rest.takeWhile (!·.isProgramEnd), behind,
        fun l hl => ?_, ?_, fun l hl => ?_, ending, ?_, ?_⟩
      · simpa using List.mem_takeWhile_imp hl
      · simpa [hstart] using List.head?_dropWhile_not (!·.isProgramStart) lines
      · simpa using List.mem_takeWhile_imp hl
      · simpa [hending] using List.head?_dropWhile_not (!·.isProgramEnd) rest
      · rw [← hending, List.takeWhile_append_dropWhile, ← hstart, List.takeWhile_append_dropWhile]

theorem ofLines?_eq_none_iff : ofLines? lines = none ↔ ∀ l ∈ lines, l.isProgramStart = false := by
  have hdrop : lines.dropWhile (!·.isProgramStart) = [] ↔
      ∀ l ∈ lines, l.isProgramStart = false := by
    simp [List.dropWhile_eq_nil_iff]
  rw [← hdrop, ofLines?]
  split
  · rename_i hnone
    simp [hnone]
  · rename_i start rest hsome
    simp only [hsome, reduceCtorEq, iff_false]
    split <;> exact Option.some_ne_none _

/-- A line that starts a program is followed by a line that ends one. -/
def HasMarkers (lines : List SourceLine) : Prop :=
  ∃ start ending : SourceLine, [start, ending].Sublist lines ∧ start.isProgramStart = true ∧
    ending.isProgramEnd = true

/-- No end is missing exactly where an end marker follows a start marker.  It may follow any of
them, since it then follows the first one. -/
theorem missingEnd_eq_none_iff {p : Program} (h : ofLines? lines = some p) :
    p.missingEnd = none ↔ HasMarkers lines := by
  constructor
  · intro hend
    obtain ⟨before, start, body, behind, hmarks⟩ := delimits_of_ofLines? h hend
    obtain ⟨ending, hending, rfl⟩ := hmarks.lines_eq
    have hrest : [ending].Sublist (body ++ ending :: behind) :=
      List.singleton_sublist.2 (by simp)
    exact ⟨start, ending, (hrest.cons_cons start).trans (List.sublist_append_right _ _),
      hmarks.start_isStart, hending⟩
  · rintro ⟨start', ending, hsub, hstart', hending⟩
    simp only [ofLines?] at h
    split at h
    · cases h
    · rename_i start rest hstart
      have hlines := (List.takeWhile_append_dropWhile (p := (!·.isProgramStart)) (l := lines)).symm
      rw [hlines, hstart] at hsub
      obtain ⟨front, back, heq, hfront, hback⟩ := List.sublist_append_iff.1 hsub
      cases front with
      | cons l front =>
        obtain rfl := (List.cons.inj heq).1
        have hl := List.mem_takeWhile_imp (hfront.subset List.mem_cons_self)
        simp [hstart'] at hl
      | nil =>
        obtain rfl : back = [start', ending] := heq.symm
        have hmem : ending ∈ rest := List.singleton_sublist.1 hback.tail
        split at h
        · rename_i hnone
          have hall := List.dropWhile_eq_nil_iff.1 hnone ending hmem
          simp [hending] at hall
        · cases h
          rfl

end Program

/-! ### Lines outside the main routine -/

theorem SourceLine.function_cases (l : SourceLine) :
    l.isFunctionStart = true ∨ (l.isFunctionStart = false ∧ l.isFunctionEnd = true) ∨
      (l.isFunctionStart = false ∧ l.isFunctionEnd = false) := by
  cases l.isFunctionStart <;> cases l.isFunctionEnd <;> simp

section FunctionStep

variable {f : OpenFunction} {l : SourceLine}

/-- A function that is still open ends where the next one starts. -/
theorem functionStep_start (f : Option OpenFunction) (h : l.isFunctionStart = true) :
    functionStep f l = ((f.map OpenFunction.closeUnended).getD .empty ++ (OpenFunction.start l).1,
      some (OpenFunction.start l).2) :=
  if_pos h

theorem functionStep_strayEnd (hstart : l.isFunctionStart = false)
    (hend : l.isFunctionEnd = true) :
    functionStep none l = (⟨[], [l.notice .strayFunctionEnd]⟩, none) := by
  simp [functionStep, hstart, hend]

theorem functionStep_end (hstart : l.isFunctionStart = false) (hend : l.isFunctionEnd = true) :
    functionStep (some f) l = (f.close, none) := by
  simp [functionStep, hstart, hend]

theorem functionStep_outside (hstart : l.isFunctionStart = false)
    (hend : l.isFunctionEnd = false) : functionStep none l = (.empty, none) := by
  simp [functionStep, hstart, hend]

theorem functionStep_body (hstart : l.isFunctionStart = false) (hend : l.isFunctionEnd = false) :
    functionStep (some f) l =
      ((f.routine.feedBody l).1, some { f with routine := (f.routine.feedBody l).2 }) := by
  simp [functionStep, hstart, hend]

end FunctionStep

end Pseudocode
