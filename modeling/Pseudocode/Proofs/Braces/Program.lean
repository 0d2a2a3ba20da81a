import Pseudocode.Proofs.Pass.Convert
import Pseudocode.Proofs.Braces.Routine
import Pseudocode.Proofs.Program.Parts
import Pseudocode.Proofs.SourceLine

/-!
# Balanced braces

The generated program has balanced braces, whatever is wrong with the source, as long as every
terminator and every `Sino` finds a block to belong to.  A function whose header could not be read
has no brace of its own, so its braces are counted from zero, and those of all other routines from
one.

* `MainRoutine.convert_leads` : a main routine closes the braces it opens.
* `functionStep_leads`, `functionSteps_leads` : open braces follow the function that is open.
* `convert_braces_balance` : **the braces of a generated program balance.**
-/

namespace Pseudocode

open Braces

theorem SourceLine.NoBraces.programName {l : SourceLine} (h : l.NoBraces) :
    BraceFree l.programName :=
  BraceFree.mono (braceFree_append_iff.2 ⟨h.code, by decide⟩) l.programName_subset

/-! ### Main routines -/

theorem MainRoutine.convert_leads {s : MainRoutine} (hstart : s.start.NoBraces)
    (hbody : ∀ l ∈ s.body, l.NoBraces) (hw : s.convert.Straight) :
    Leads 0 (render s.convert.pieces) 0 := by
  have hname := hstart.programName
  have hcomment : Leads 0 ("// Algoritmo: ".toList ++ s.start.programName) 0 :=
    BraceFree.leads (braceFree_append_iff.2 ⟨by decide, hname⟩) 0
  have hheader : Leads 0 ("function ".toList ++ s.start.programName ++ "() \x7b".toList) 1 := by
    have hword : Leads 0 "function ".toList 0 := rfl
    have hbrace : Leads 0 "() \x7b".toList 1 := rfl
    exact (hword.append (hname.leads 0)).append hbrace
  have haligned : (Routine.start 1).Aligned := rfl
  simp only [MainRoutine.convert, Written.straight_append_iff] at hw
  obtain ⟨hlines, hend⟩ := Routine.feedBodies_leads haligned hbody hw.1.2 1
  simp only [MainRoutine.convert, Written.pieces_append, Written.pieces_code, render_append,
    render_cons, render_nil, List.append_nil]
  exact (((Piece.leads_line hcomment 0).append (Piece.leads_line hheader 0)).append hlines).append
    (Routine.close_leads hend)

/-! ### Functions -/

namespace OpenFunction

/-- The number of open braces before the body of the function. -/
def base (f : OpenFunction) : Nat := if f.function.isSome then 1 else 0

/-- The number of open braces while the function is converted. -/
def braces (f : OpenFunction) : Nat := f.base + f.routine.scope.blocks.length

/-- The depth of the function follows its blocks, and its result holds no brace. -/
structure Sound (f : OpenFunction) : Prop where
  aligned : f.routine.Aligned
  result : ∀ function ∈ f.function, ∀ result ∈ function.result, BraceFree result

variable {f : OpenFunction} {l : SourceLine}

theorem start_leads (hl : l.NoBraces) :
    Leads 0 (render (start l).1.pieces) (start l).2.braces ∧ (start l).2.Sound := by
  unfold start
  split
  · rename_i function hfunction
    have hwritten := (Header.Function.readFrom_of_ofText? hfunction).toWrittenIn
    have hresult : ∀ result ∈ function.result, BraceFree result := fun result h =>
      hl.code.mono (hwritten.result_subset result h)
    have hdeclaration : ∀ code ∈ function.resultDeclaration.toList, BraceFree code := by
      intro code hcode
      obtain ⟨result, hr, rfl⟩ := Option.map_eq_some_iff.1 (Option.mem_toList.1 hcode)
      simp only [braceFree_append_iff]
      exact ⟨⟨by decide, hresult result hr⟩, by decide⟩
    refine ⟨?_, rfl, ?_⟩
    · exact (Piece.leads_line (Header.Function.leads_opening hl.code hwritten 0) 0).append
        (leads_render_lines hdeclaration 1 1)
    · rintro _ ⟨⟩
      exact hresult
  · have hcomment : Leads 0 "// Función no convertida: ".toList 0 := rfl
    refine ⟨leads_render_line (hcomment.append (hl.code.leads 0)) 0, rfl, ?_⟩
    rintro _ ⟨⟩

/-- The end of a function closes its braces. -/
theorem close_leads (hf : f.Sound) : Leads f.braces (render f.close.pieces) 0 := by
  have hblocks := Routine.closeBlocks_leads hf.aligned f.base
  have hend : Leads 1 (render f.routine.closeBlocks.2.close.1.pieces) 0 :=
    Routine.close_leads (Routine.closeBlocks_aligned hf.aligned)
  unfold braces
  simp only [close]
  split
  · rename_i function hfunction
    have hbase : f.base = 1 := by simp [base, hfunction]
    have hreturns : ∀ code ∈ function.result.toList.map
        (fun result => "return ".toList ++ result ++ ";".toList), BraceFree code := by
      intro code hcode
      obtain ⟨result, hr, rfl⟩ := List.mem_map.1 hcode
      simp only [braceFree_append_iff]
      exact ⟨⟨by decide, hf.result function hfunction result (Option.mem_toList.1 hr)⟩, by decide⟩
    have hreturn := leads_render_lines hreturns f.routine.closeBlocks.2.depth 1
    rw [List.map_map] at hreturn
    rw [hbase] at hblocks ⊢
    simp only [Written.pieces_append, Written.pieces_code, render_append]
    exact (hblocks.append hreturn).append hend
  · -- a function without a header has no brace to close but those of its blocks
    rename_i hfunction
    have hbase : f.base = 0 := by simp [base, hfunction]
    have hcomment : Leads 0 (render [.line 0 "// FinFuncion".toList, .blank]) 0 := rfl
    rw [hbase] at hblocks ⊢
    simp only [Written.pieces_append, Written.pieces_code, render_append]
    exact hblocks.append hcomment

theorem closeUnended_leads (hf : f.Sound) : Leads f.braces (render f.closeUnended.pieces) 0 :=
  close_leads hf

end OpenFunction

/-- The number of open braces outside the main routine, where `f` is the open function. -/
def functionBraces (f : Option OpenFunction) : Nat := (f.map OpenFunction.braces).getD 0

/-- The braces of the function that is left open, if any, are closed. -/
theorem leads_closeUnended {f : Option OpenFunction} (hf : ∀ g ∈ f, g.Sound) :
    Leads (functionBraces f) (render ((f.map OpenFunction.closeUnended).getD .empty).pieces) 0 := by
  cases f with
  | none => exact leads_nil 0
  | some f => exact f.closeUnended_leads (hf f rfl)

/-- A line outside the main routine moves the open braces with the open function. -/
theorem functionStep_leads {f : Option OpenFunction} {l : SourceLine} (hf : ∀ g ∈ f, g.Sound)
    (hl : l.NoBraces) (hw : (functionStep f l).1.Straight) :
    Leads (functionBraces f) (render (functionStep f l).1.pieces)
      (functionBraces (functionStep f l).2) ∧ ∀ g ∈ (functionStep f l).2, g.Sound := by
  obtain hstart | ⟨hstart, hend⟩ | ⟨hstart, hend⟩ := l.function_cases
  · -- a function that is still open is closed before the new one starts
    obtain ⟨hopen, hsound⟩ := OpenFunction.start_leads hl
    rw [functionStep_start f hstart, Written.pieces_append, render_append]
    refine ⟨(leads_closeUnended hf).append hopen, ?_⟩
    rintro _ ⟨⟩
    exact hsound
  · cases f with
    | none =>
      rw [functionStep_strayEnd hstart hend]
      exact ⟨leads_nil 0, by simp⟩
    | some f =>
      rw [functionStep_end hstart hend]
      exact ⟨f.close_leads (hf f rfl), by simp⟩
  · cases f with
    | none =>
      rw [functionStep_outside hstart hend]
      exact ⟨leads_nil 0, by simp⟩
    | some f =>
      have hf := hf f rfl
      rw [functionStep_body hstart hend] at hw ⊢
      obtain ⟨hleads, haligned⟩ := Routine.feedBody_leads hf.aligned hl hw f.base
      refine ⟨hleads, ?_⟩
      rintro _ ⟨⟩
      exact ⟨haligned, hf.result⟩

theorem functionSteps_leads {f : Option OpenFunction} {ls : List SourceLine}
    (hf : ∀ g ∈ f, g.Sound) (hls : ∀ l ∈ ls, l.NoBraces)
    (hw : (functionSteps f ls).1.Straight) :
    Leads (functionBraces f) (render (functionSteps f ls).1.pieces)
      (functionBraces (functionSteps f ls).2) ∧ ∀ g ∈ (functionSteps f ls).2, g.Sound := by
  induction ls generalizing f with
  | nil => exact ⟨leads_nil _, hf⟩
  | cons l ls ih =>
    obtain ⟨hl, hls⟩ := List.forall_mem_cons.1 hls
    obtain ⟨hfirst, hrest⟩ := Written.straight_append_iff.1 hw
    obtain ⟨hleads, hsound⟩ := functionStep_leads hf hl hfirst
    obtain ⟨hleads', hsound'⟩ := ih hsound hls hrest
    refine ⟨?_, hsound'⟩
    simp only [functionSteps, Written.pieces_append, render_append]
    exact hleads.append hleads'

theorem convertFunctions_leads {ls : List SourceLine} (hls : ∀ l ∈ ls, l.NoBraces)
    (hw : (convertFunctions ls).Straight) : Leads 0 (render (convertFunctions ls).pieces) 0 := by
  obtain ⟨hsteps, -⟩ := Written.straight_append_iff.1 hw
  have hnone : ∀ g ∈ (none : Option OpenFunction), g.Sound := by simp
  obtain ⟨hleads, hsound⟩ := functionSteps_leads hnone hls hsteps
  simp only [convertFunctions, Written.pieces_append, render_append]
  exact hleads.append (leads_closeUnended hsound)

/-! ### Programs -/

theorem leads_foldr_append {ws : List Written}
    (h : ∀ w ∈ ws, w.Straight → Leads 0 (render w.pieces) 0)
    (hw : (ws.foldr (· ++ ·) Written.empty).Straight) :
    Leads 0 (render (ws.foldr (· ++ ·) Written.empty).pieces) 0 := by
  induction ws with
  | nil => exact leads_nil 0
  | cons w ws ih =>
    obtain ⟨hfirst, hrest⟩ := Written.straight_append_iff.1 hw
    obtain ⟨hleads, h⟩ := List.forall_mem_cons.1 h
    rw [List.foldr_cons, Written.pieces_append, render_append]
    exact (hleads hfirst).append (ih h hrest)

/-- A program whose lines hold no braces is converted to one whose braces balance. -/
theorem Program.convert_leads {p : Program} (houtside : ∀ l ∈ p.outside, l.NoBraces)
    (hroutines : ∀ s ∈ p.routines, s.start.NoBraces ∧ ∀ l ∈ s.body, l.NoBraces)
    (hw : p.convert.Straight) : Leads 0 (render p.convert.pieces) 0 := by
  simp only [Program.convert, Written.straight_append_iff] at hw
  obtain ⟨⟨⟨⟨-, hfunctions⟩, -⟩, hmain⟩, -⟩ := hw
  have hpreamble : Leads 0 (render preamble) 0 := by decide +kernel
  have hgap : Leads 0
      (render (if (convertFunctions p.outside).pieces.isEmpty then [] else [.blank])) 0 := by
    split <;> rfl
  have hroutine : ∀ w ∈ p.routines.map MainRoutine.convert,
      w.Straight → Leads 0 (render w.pieces) 0 := by
    intro w hw
    obtain ⟨s, hs, rfl⟩ := List.mem_map.1 hw
    exact MainRoutine.convert_leads (hroutines s hs).1 (hroutines s hs).2
  have hcall : Leads 0 (render (finalCall p.name)) 0 := by
    obtain ⟨s, hs, hname⟩ := p.exists_mem_routines_name
    have hcomment : Leads 0 "// Ejecutar el algoritmo".toList 0 := by decide +kernel
    have hparens : Leads 0 "();".toList 0 := rfl
    have hcode := ((hroutines s hs).1.programName.leads 0).append hparens
    rw [hname, finalCall, render_cons, render_cons]
    exact (leads_render_line (leads_nil 0) 0).append
      ((Piece.leads_line hcomment 0).append (leads_render_line hcode 0))
  simp only [Program.convert, Written.pieces_append, Written.pieces_code, render_append,
    List.nil_append]
  exact (((hpreamble.append (convertFunctions_leads houtside hfunctions)).append hgap).append
    (leads_foldr_append hroutine hmain)).append hcall

namespace Diagnostic

/-- The diagnostic reports a terminator where no block is open, or a `Sino` outside a `Si`. -/
def IsStray (d : Diagnostic) : Prop :=
  d.message = "Línea " ++ toString d.line ++ ": " ++ "'" ++ d.code ++ "' sin bloque abierto" ∨
    d.message = "Línea " ++ toString d.line ++ ": " ++ "'Sino' fuera de un bloque 'Si'"

instance (d : Diagnostic) : Decidable d.IsStray := instDecidableOr

end Diagnostic

theorem Written.straight_of_report {w : Written} {strict : Bool}
    (h : ∀ d ∈ w.notices.map (·.report strict), ¬ d.IsStray) : w.Straight := by
  intro n hn
  have hstray := h _ (List.mem_map_of_mem hn)
  obtain ⟨line, code, cause⟩ := n
  constructor
  · rintro ⟨⟩
    exact hstray (.inl rfl)
  · rintro ⟨⟩
    exact hstray (.inr rfl)

/-- **The braces of a generated program balance,** if the source holds no braces and no terminator
or `Sino` is reported to belong to no block: no front of the program closes more braces than it
opens, and the whole program closes as many. -/
theorem convert_braces_balance (strict : Bool) (src : String) (hsrc : BraceFree src.toList)
    (hstray : ∀ d ∈ (convert strict src).details, ¬ d.IsStray) :
    (∀ front, front <+: (convert strict src).text.toList →
      front.count '\x7d' ≤ front.count '\x7b') ∧
    (convert strict src).text.toList.count '\x7b' =
      (convert strict src).text.toList.count '\x7d' := by
  have hlines : ∀ l ∈ sourceLines 1 src.toList, l.NoBraces := fun l hl =>
    ⟨hsrc.mono (SourceLine.subset_of_mem_sourceLines hl).1,
      hsrc.mono (SourceLine.subset_of_mem_sourceLines hl).2⟩
  have hleads : Leads 0 (convert strict src).text.toList 0 := by
    rw [convert_eq] at hstray ⊢
    split at hstray
    · exact leads_nil 0
    · rename_i p hp
      obtain ⟨houtside, hroutines⟩ := Program.subset_of_ofLines? hp
      have hstraight : p.convert.Straight := Written.straight_of_report hstray
      rw [Conversion.ofWritten_text, String.toList_ofList]
      refine Program.convert_leads (fun l hl => hlines l (houtside hl)) (fun s hs => ?_) hstraight
      exact ⟨hlines _ (hroutines s hs).start_mem,
        fun l hl => hlines l ((hroutines s hs).body_subset hl)⟩
  have hcount := hleads.count_add
  rw [Nat.add_zero, Nat.add_zero] at hcount
  refine ⟨fun front hfront => ?_, hcount⟩
  have hle := hleads.count_le_of_isPrefix hfront
  rwa [Nat.add_zero] at hle

/-- A function whose header cannot be read, a loop whose header cannot be read, a terminator of the
wrong block, blocks that are never closed, two starts and no end. -/
theorem convert_braces_balance_despite_faults :
    let src := "Funcion f(\nSi a\nFinFuncion\nAlgoritmo p\nPara i\nSi x\nSino\nFinPara\n" ++
      "Repetir\nProceso q\nMientras x\nDimension m[2, 3]"
    (BraceFree src.toList ∧ (convert true src).details.map (·.line) = [12, 1, 2, 5, 8, 9, 5, 11] ∧
      ∀ d ∈ (convert true src).details, ¬ d.IsStray) ∧
    (∀ front, front <+: (convert true src).text.toList →
      front.count '\x7d' ≤ front.count '\x7b') ∧
    (convert true src).text.toList.count '\x7b' =
      (convert true src).text.toList.count '\x7d' := by
  intro src
  have hsrc : BraceFree src.toList := by decide +kernel
  have hdetails : (convert true src).details.map (·.line) = [12, 1, 2, 5, 8, 9, 5, 11] ∧
      ∀ d ∈ (convert true src).details, ¬ d.IsStray := by decide +kernel
  exact ⟨⟨hsrc, hdetails⟩, convert_braces_balance true src hsrc hdetails.2⟩

end Pseudocode
