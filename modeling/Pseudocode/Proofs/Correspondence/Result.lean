import Pseudocode.Proofs.Pass.Convert
import Pseudocode.Proofs.Correspondence.Program
import Pseudocode.Proofs.Strictness

/-!
# Results over corresponding lines

What it means for two results that the lines of their sources correspond, said about the results
alone.  Diagnostics quote numbers of lines in their messages, so these agree in their wording and
not as texts.

* `SameWording`, `Diagnostic.Renumbered` : two texts, or two diagnostics, are the same but for
  numbers of lines.
* `Conversion.Renumbered.success_eq` : results that are the same but for numbers agree on success.
* `Program.Matches.renumbered` : **programs that are the same but for the numbers of their lines
  have the same result, but for the numbers.**
-/

namespace Pseudocode

/-- The two texts are the same but for numbers in them, which `R` relates. -/
inductive SameWording (R : Int → Int → Prop) : String → String → Prop
  | text (s : String) : SameWording R s s
  | number {n n' : Int} (h : R n n') : SameWording R (toString n) (toString n')
  | append {a a' b b' : String} (ha : SameWording R a a') (hb : SameWording R b b') :
    SameWording R (a ++ b) (a' ++ b')

/-- The two lines are the same but for their numbers, which `R` relates. -/
structure SourceLine.Renumbered (R : Int → Int → Prop) (l l' : SourceLine) : Prop where
  num : R l.num l'.num
  text_eq : l'.text = l.text
  code_eq : l'.code = l.code
  lower_eq : l'.lower = l.lower

/-- Lines correspond that are the same but for their numbers. -/
def Correspondence.renumbering (R : Int → Int → Prop) : Correspondence where
  Line := SourceLine.Renumbered R
  alike h := ⟨h.code_eq, h.lower_eq, by rw [SourceLine.isComment, SourceLine.isComment, h.text_eq],
    fun _ => h.text_eq⟩

theorem Correspondence.number_renumbering {R : Int → Int → Prop} {n n' : Int}
    (h : (renumbering R).Number n n') : R n n' := by
  obtain ⟨l, l', hl, rfl, rfl⟩ := h
  exact hl.num

/-- The two diagnostics are the same but for numbers of lines, which `R` relates. -/
structure Diagnostic.Renumbered (R : Int → Int → Prop) (d d' : Diagnostic) : Prop where
  line : R d.line d'.line
  code_eq : d'.code = d.code
  category_eq : d'.category = d.category
  suggestion_eq : d'.suggestion = d.suggestion
  message : SameWording R d.message d'.message

/-- The two results are the same but for numbers of lines, which `R` relates. -/
structure Conversion.Renumbered (R : Int → Int → Prop) (c c' : Conversion) : Prop where
  text_eq : c'.text = c.text
  mainName_eq : c'.mainName = c.mainName
  details : List.Forall₂ (Diagnostic.Renumbered R) c.details c'.details
  agrees : c.Agrees
  agrees' : c'.Agrees

variable {R : Int → Int → Prop}

/-- Results whose diagnostics are of the same classes agree on success. -/
theorem Conversion.success_eq_of_categories {c c' : Conversion} (hc : c.Agrees) (hc' : c'.Agrees)
    (h : List.Forall₂ (fun d d' : Diagnostic => d'.category = d.category) c.details c'.details) :
    c'.success = c.success := by
  rw [Bool.eq_iff_iff, hc'.success_iff, hc.success_iff]
  generalize c.details = ds at h ⊢
  generalize c'.details = ds' at h ⊢
  induction h with
  | nil => rfl
  | cons hd _ ih => simp only [List.forall_mem_cons, hd, ih]

theorem Conversion.Renumbered.success_eq {c c' : Conversion} (h : c.Renumbered R c') :
    c'.success = c.success :=
  Conversion.success_eq_of_categories h.agrees h.agrees'
    (h.details.imp fun _ _ hd => hd.category_eq)

namespace SameWording

variable {n n' : Int}

theorem place (h : R n n') :
    SameWording R ("Línea " ++ toString n ++ ": ") ("Línea " ++ toString n' ++ ": ") :=
  ((text _).append (number h)).append (text _)

theorem followed {a a' : String} (h : SameWording R a a') (s : String) :
    SameWording R (a ++ s) (a' ++ s) :=
  h.append (text s)

end SameWording

namespace Notice

theorem message_sameWording {line line' : Int} (h : R line line') (code : String) (cause : Cause) :
    SameWording R (message ⟨line, code, cause⟩) (message ⟨line', code, cause⟩) := by
  have hplace := SameWording.place h
  cases cause with
  | openLiteral | promptedInput | unconvertedLoop | strayElse | unclosedFunction =>
    exact hplace.followed _
  | unrecognised | strayCloser | strayFunctionEnd =>
    exact ((hplace.followed _).followed code).followed _
  | unclosedBlock kind => exact ((hplace.followed _).followed _).followed _
  | wrongCloser b =>
    exact (((((hplace.followed _).followed code).followed _).followed _).followed _).followed _
  | unconvertedFunction => exact ((SameWording.text _).append (.number h)).followed _
  | missingStart | missingEnd => exact .text _

theorem wrongCloser_sameWording {line line' : Int} (h : R line line') (code : String)
    {b b' : OpenBlock} (hkind : b'.kind = b.kind) (hopened : R b.line b'.line) :
    SameWording R (message ⟨line, code, .wrongCloser b⟩)
      (message ⟨line', code, .wrongCloser b'⟩) := by
  simp only [message, hkind]
  have hquoted := ((SameWording.place h).followed "'").followed code
  exact (((hquoted.followed _).followed _).followed _).append (.number hopened)

theorem report_renumbered {n n' : Notice} (hline : R n.line n'.line) (hcode : n'.code = n.code)
    (hcause : n'.cause = n.cause) (strict : Bool) :
    (n.report strict).Renumbered R (n'.report strict) := by
  obtain ⟨line, code, cause⟩ := n
  obtain ⟨line', code', cause'⟩ := n'
  obtain rfl : code' = code := hcode
  obtain rfl : cause' = cause := hcause
  exact ⟨hline, rfl, rfl, rfl, message_sameWording hline code' cause'⟩

theorem Matches.renumbered {n n' : Notice} (h : n.Matches (.renumbering R) n') (strict : Bool) :
    (n.report strict).Renumbered R (n'.report strict) := by
  cases h with
  | quote hl hcause =>
    have hline := hl.num
    have hcode := congrArg String.ofList hl.text_eq
    cases hcause with
    | same _ =>
      refine report_renumbered ?_ ?_ ?_ strict
      · exact hline
      · exact hcode
      · rfl
    | wrongCloser hb =>
      simp only [SourceLine.notice, report, hcode]
      exact ⟨hline, rfl, rfl, rfl, wrongCloser_sameWording hline _ hb.kind_eq
        (Correspondence.number_renumbering hb.line)⟩
  | unclosed hb =>
    refine report_renumbered ?_ ?_ ?_ strict
    · exact Correspondence.number_renumbering hb.line
    · exact congrArg BlockKind.keyword hb.kind_eq
    · exact congrArg Cause.unclosedBlock hb.kind_eq
  | missingEnd hn =>
    refine report_renumbered ?_ ?_ ?_ strict
    · exact Correspondence.number_renumbering hn
    · rfl
    · rfl

end Notice

/-- **Programs that are the same but for the numbers of their lines** have the same result, but for
the numbers. -/
theorem Program.Matches.renumbered {p p' : Program} (h : p.Matches (.renumbering R) p')
    (strict : Bool) :
    (Conversion.ofWritten strict p.convert p.name).Renumbered R
      (.ofWritten strict p'.convert p'.name) := by
  refine ⟨?_, ?_, ?_, Conversion.ofWritten_agrees .., Conversion.ofWritten_agrees ..⟩
  · simp only [Conversion.ofWritten_text, h.convert.pieces_eq fun _ _ hl _ => hl.text_eq]
  · simp only [Conversion.ofWritten_mainName, h.name_eq]
  · exact List.rel_map (fun _ _ hn => hn.renumbered strict) h.convert.notices

/-- Sources whose lines are the same but for their numbers have the same result, but for the
numbers; `R` has to relate 0 to itself, which stands for no line. -/
theorem convert_renumbered {src src' : String} (hzero : R 0 0)
    (h : List.Forall₂ (SourceLine.Renumbered R) (sourceLines 1 src.toList)
      (sourceLines 1 src'.toList)) (strict : Bool) :
    (convert strict src).Renumbered R (convert strict src') := by
  have hprograms := Program.ofLines?_matches (S := .renumbering R) h
  rw [convert_eq, convert_eq]
  generalize Program.ofLines? (sourceLines 1 src.toList) = p at hprograms
  generalize Program.ofLines? (sourceLines 1 src'.toList) = p' at hprograms
  cases hprograms with
  | some hp => exact hp.renumbered strict
  | none =>
    exact ⟨rfl, rfl, .cons ⟨hzero, rfl, rfl, rfl, .text _⟩ .nil, Conversion.ofWritten_agrees ..,
      Conversion.ofWritten_agrees ..⟩

end Pseudocode
