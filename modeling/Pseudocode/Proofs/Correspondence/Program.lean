import Pseudocode.Proofs.Correspondence.Routine
import Pseudocode.Proofs.Program.Parts

/-!
# Programs over corresponding lines

Two sources whose lines correspond one by one have the same parts, and their routines run in step.
So the same program is written under the same name, and what is said about it is said about lines
that correspond.

* `functionSteps_matches`, `convertFunctions_matches` : functions of corresponding lines.
* `Program.ofLines?_matches` : corresponding lines make up corresponding programs.
* `Program.Matches.convert` : **corresponding programs are converted alike.**
-/

namespace Pseudocode

variable {S : Correspondence}

/-! ### Functions -/

/-- The functions have corresponding headers, read alike, and bodies in matching states. -/
structure OpenFunction.Matches (S : Correspondence) (f f' : OpenFunction) : Prop where
  header : S.Line f.header f'.header
  function_eq : f'.function = f.function
  routine : f.routine.Matches S f'.routine

namespace OpenFunction

variable {f f' : OpenFunction} {l l' : SourceLine}

theorem start_matches (hl : S.Line l l') :
    (start l).1.Matches S (start l').1 ∧ (start l).2.Matches S (start l').2 := by
  simp only [start, (S.alike hl).code_eq]
  split
  · exact ⟨.code _, hl, rfl, rfl, rfl, .nil⟩
  · exact ⟨.quote _ hl fun _ => Cause.noConfusion, hl, rfl, .start 1⟩

theorem Matches.close (h : f.Matches S f') : f.close.Matches S f'.close := by
  obtain ⟨hblocks, hroutine⟩ := h.routine.closeBlocks
  simp only [OpenFunction.close, h.function_eq, hroutine.depth_eq]
  split
  · exact (hblocks.append (.code _)).append hroutine.close.1
  · exact hblocks.append (.code _)

theorem Matches.closeUnended (h : f.Matches S f') : f.closeUnended.Matches S f'.closeUnended :=
  .append (.quote _ h.header fun _ => Cause.noConfusion) h.close

end OpenFunction

section Steps

variable {f f' : Option OpenFunction}

theorem closeUnended_getD_matches (h : Option.Rel (OpenFunction.Matches S) f f') :
    ((f.map OpenFunction.closeUnended).getD .empty).Matches S
      ((f'.map OpenFunction.closeUnended).getD .empty) := by
  cases h with
  | none => exact .empty
  | some h => exact h.closeUnended

/-- A line outside the main routine keeps two conversions of functions in step. -/
theorem functionStep_matches (h : Option.Rel (OpenFunction.Matches S) f f') {l l' : SourceLine}
    (hl : S.Line l l') :
    (functionStep f l).1.Matches S (functionStep f' l').1 ∧
      Option.Rel (OpenFunction.Matches S) (functionStep f l).2 (functionStep f' l').2 := by
  have hstart' := (S.alike hl).isFunctionStart_eq
  have hend' := (S.alike hl).isFunctionEnd_eq
  obtain hstart | ⟨hstart, hend⟩ | ⟨hstart, hend⟩ := l.function_cases
  · rw [functionStep_start f hstart, functionStep_start f' (hstart'.trans hstart)]
    obtain ⟨hopening, hopened⟩ := OpenFunction.start_matches hl
    exact ⟨(closeUnended_getD_matches h).append hopening, .some hopened⟩
  · cases h with
    | none =>
      rw [functionStep_strayEnd hstart hend,
        functionStep_strayEnd (hstart'.trans hstart) (hend'.trans hend)]
      exact ⟨.quote _ hl fun _ => Cause.noConfusion, .none⟩
    | some h =>
      rw [functionStep_end hstart hend, functionStep_end (hstart'.trans hstart) (hend'.trans hend)]
      exact ⟨h.close, .none⟩
  · cases h with
    | none =>
      rw [functionStep_outside hstart hend,
        functionStep_outside (hstart'.trans hstart) (hend'.trans hend)]
      exact ⟨.empty, .none⟩
    | some h =>
      rw [functionStep_body hstart hend,
        functionStep_body (hstart'.trans hstart) (hend'.trans hend)]
      obtain ⟨hwritten, hroutine⟩ := h.routine.feedBody hl
      exact ⟨hwritten, .some ⟨h.header, h.function_eq, hroutine⟩⟩

theorem functionSteps_matches {ls ls' : List SourceLine}
    (h : Option.Rel (OpenFunction.Matches S) f f') (hls : List.Forall₂ S.Line ls ls') :
    (functionSteps f ls).1.Matches S (functionSteps f' ls').1 ∧
      Option.Rel (OpenFunction.Matches S) (functionSteps f ls).2 (functionSteps f' ls').2 := by
  induction hls generalizing f f' with
  | nil => exact ⟨.empty, h⟩
  | cons hl _ ih =>
    obtain ⟨hfirst, hopen⟩ := functionStep_matches h hl
    obtain ⟨hrest, hlast⟩ := ih hopen
    exact ⟨hfirst.append hrest, hlast⟩

end Steps

theorem Written.Matches.withGap {w w' : Written} (h : w.Matches S w') :
    (w ++ .code (if w.pieces.isEmpty then [] else [.blank])).Matches S
      (w' ++ .code (if w'.pieces.isEmpty then [] else [.blank])) := by
  refine ⟨fun hkeeps => ?_, List.rel_append h.notices .nil⟩
  have hfunctions : w.KeepsTexts S := fun l l' hl hn => hkeeps l l' hl (List.mem_append_left _ hn)
  simp only [pieces_append, pieces_code, h.pieces_eq hfunctions]

theorem convertFunctions_matches {ls ls' : List SourceLine} (hls : List.Forall₂ S.Line ls ls') :
    (convertFunctions ls).Matches S (convertFunctions ls') := by
  obtain ⟨hsteps, hopen⟩ := functionSteps_matches .none hls
  exact hsteps.append (closeUnended_getD_matches hopen)

/-! ### Main routines -/

/-- The routines have corresponding lines. -/
structure MainRoutine.Matches (S : Correspondence) (s s' : MainRoutine) : Prop where
  start : S.Line s.start s'.start
  body : List.Forall₂ S.Line s.body s'.body

theorem MainRoutine.Matches.convert {s s' : MainRoutine} (h : s.Matches S s') :
    s.convert.Matches S s'.convert := by
  obtain ⟨hbody, hroutine⟩ := (Routine.Matches.start 1).feedBodies h.body
  simp only [MainRoutine.convert, (S.alike h.start).programName_eq]
  exact ((Written.Matches.code _).append hbody).append hroutine.close.1

/-! ### Programs -/

/-- The programs have corresponding parts. -/
structure Program.Matches (S : Correspondence) (p p' : Program) : Prop where
  outside : List.Forall₂ S.Line p.outside p'.outside
  first : p.first.Matches S p'.first
  others : List.Forall₂ (MainRoutine.Matches S) p.others p'.others
  missingEnd : Option.Rel S.Number p.missingEnd p'.missingEnd

theorem forall₂_span {α β : Type} {R : α → β → Prop} {p : α → Bool} {q : β → Bool}
    (hpq : ∀ a b, R a b → q b = p a) {as : List α} {bs : List β} (h : List.Forall₂ R as bs) :
    List.Forall₂ R (as.takeWhile p) (bs.takeWhile q) ∧
      List.Forall₂ R (as.dropWhile p) (bs.dropWhile q) := by
  induction h with
  | nil => exact ⟨.nil, .nil⟩
  | cons hab hrest ih =>
    simp only [List.takeWhile_cons, List.dropWhile_cons, hpq _ _ hab]
    split
    · exact ⟨.cons hab ih.1, ih.2⟩
    · exact ⟨.nil, .cons hab hrest⟩

theorem rel_getLast?_getD {α β : Type} {R : α → β → Prop} {a : α} {b : β} (hab : R a b)
    {as : List α} {bs : List β} (h : List.Forall₂ R as bs) :
    R (as.getLast?.getD a) (bs.getLast?.getD b) := by
  induction h generalizing a b with
  | nil => exact hab
  | cons hab' _ ih => simpa only [List.getLast?_cons, Option.getD_some] using ih hab'

namespace Program

variable {ls ls' : List SourceLine}

theorem cutAtStarts_matches (h : List.Forall₂ S.Line ls ls') :
    List.Forall₂ S.Line (cutAtStarts ls).1 (cutAtStarts ls').1 ∧
      List.Forall₂ (MainRoutine.Matches S) (cutAtStarts ls).2 (cutAtStarts ls').2 := by
  induction h with
  | nil => exact ⟨.nil, .nil⟩
  | cons hl _ ih =>
    simp only [cutAtStarts, (S.alike hl).isProgramStart_eq]
    split
    · exact ⟨.nil, .cons ⟨hl, ih.1⟩ ih.2⟩
    · exact ⟨.cons hl ih.1, ih.2⟩

/-- **Corresponding lines make up corresponding programs.** -/
theorem ofLines?_matches (h : List.Forall₂ S.Line ls ls') :
    Option.Rel (Matches S) (ofLines? ls) (ofLines? ls') := by
  have hstarts : ∀ l l', S.Line l l' → (!l'.isProgramStart) = !l.isProgramStart := fun l l' hl =>
    congrArg _ (S.alike hl).isProgramStart_eq
  have hends : ∀ l l', S.Line l l' → (!l'.isProgramEnd) = !l.isProgramEnd := fun l l' hl =>
    congrArg _ (S.alike hl).isProgramEnd_eq
  obtain ⟨hbefore, hmain⟩ := forall₂_span hstarts h
  unfold ofLines?
  generalize ls.dropWhile (!·.isProgramStart) = main at hmain
  generalize ls'.dropWhile (!·.isProgramStart) = main' at hmain
  cases hmain with
  | nil => exact .none
  | cons hstart hrest =>
    obtain ⟨hbody, hbehind⟩ := forall₂_span hends hrest
    obtain ⟨hfirst, hothers⟩ := cutAtStarts_matches hbody
    simp only
    generalize List.dropWhile _ _ = behind at hbehind
    generalize List.dropWhile _ _ = behind' at hbehind
    cases hbehind with
    | nil =>
      have hlast := rel_getLast?_getD hstart hrest
      exact .some ⟨hbefore, ⟨hstart, hfirst⟩, hothers, .some (Correspondence.number_of_line hlast)⟩
    | cons _ hafter =>
      exact .some ⟨List.rel_append hbefore hafter, ⟨hstart, hfirst⟩, hothers, .none⟩

namespace Matches

variable {p p' : Program}

theorem name_eq (h : p.Matches S p') : p'.name = p.name := by
  have hlast := rel_getLast?_getD h.first h.others
  exact (S.alike hlast.start).programName_eq

/-- **Corresponding programs are converted alike:** the same code is written, and the notices are
about corresponding lines. -/
theorem convert (h : p.Matches S p') : p.convert.Matches S p'.convert := by
  have hmissing : (Written.mk [] (p.missingEnd.toList.map .ofMissingEnd)).Matches S
      ⟨[], p'.missingEnd.toList.map .ofMissingEnd⟩ := by
    have hline := h.missingEnd
    generalize p.missingEnd = line at hline
    generalize p'.missingEnd = line' at hline
    cases hline with
    | none => exact ⟨fun _ => rfl, .nil⟩
    | some hline => exact ⟨fun _ => rfl, .cons (.missingEnd hline) .nil⟩
  have hfunctions := (convertFunctions_matches h.outside).withGap
  have hmain : ((p.routines.map MainRoutine.convert).foldr (· ++ ·) Written.empty).Matches S
      ((p'.routines.map MainRoutine.convert).foldr (· ++ ·) Written.empty) := by
    have hroutines : List.Forall₂ (MainRoutine.Matches S) p.routines p'.routines :=
      .cons h.first h.others
    exact List.rel_foldr (fun _ _ ha _ _ hb => ha.append hb) .empty
      (List.rel_map (fun _ _ hs => hs.convert) hroutines)
  have hall := (((hmissing.append (.code preamble)).append hfunctions).append hmain).append
    (.code (finalCall p.name))
  simpa only [Program.convert, h.name_eq, Written.append_assoc] using hall

end Matches

end Program

end Pseudocode
