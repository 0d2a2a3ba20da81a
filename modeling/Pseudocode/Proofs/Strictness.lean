import Mathlib.Data.List.Forall2
import Mathlib.Tactic.Tauto
import Pseudocode.Convert
import Pseudocode.Proofs.Record

/-!
# Strict and lenient conversion

A strict conversion takes faults of nesting for errors, where a lenient one takes them for
warnings, and this is all that strictness changes.  A fault is recognised in a result by its wording
alone (`Diagnostic.IsFault`), so the comparison is one of two results and does not look at how they
came about.

The options are read in one place, where a fault is recorded, but they are carried through every
line.  The two conversions are therefore run side by side: they agree in all that they keep except
for the record (`Twins`), every step leaves them in agreement, and so does every pass.

* `report_isFault_iff` : the wording of a notice tells whether its cause is a fault of nesting.
* `LineContext.Twins.convertLine` : **a line keeps the two conversions in step.**
* `MainPass.Twins.run`, `FunctionPass.Twins.run` : so do the two passes.
* `convert_strict_reclassifies` : **the results of a strict and a lenient conversion differ in the
  class of the faults and nothing else.**
-/

namespace Pseudocode

/-- The wordings of the faults of nesting; `code` is what the fault is about. -/
inductive FaultWording (code : String) : String → Prop
  | strayElse : FaultWording code "'Sino' fuera de un bloque 'Si'"
  | strayCloser : FaultWording code ("'" ++ code ++ "' sin bloque abierto")
  | wrongCloser (opened : OpenBlock) :
    FaultWording code ("'" ++ code ++ "' no corresponde con el bloque '" ++ opened.kind.keyword ++
      "' abierto en la línea " ++ toString opened.line)
  | unclosedBlock (kind : BlockKind) :
    FaultWording code ("bloque '" ++ kind.keyword ++ "' sin cerrar")
  | unclosedFunction : FaultWording code "la función no tiene 'FinFuncion'"
  | strayFunctionEnd : FaultWording code ("'" ++ code ++ "' sin función abierta")

namespace FaultWording

variable {code wording : String}

theorem head_mem (h : FaultWording code wording) :
    wording.toList.head? ∈ [some '\'', some 'b', some 'l'] := by
  cases h <;> simp

/-- The wording for input is no fault, though it starts like one: it ends in a parenthesis and is
too short to name two blocks. -/
theorem ne_prompt (h : FaultWording code wording) : wording ≠ "'Leer' convertido a prompt()" := by
  intro hw
  have hlast := congrArg (fun s => s.toList.reverse.head?) hw
  have hlength := congrArg (fun s => s.toList.length) hw
  cases h with
  | wrongCloser opened =>
    simp at hlength
    omega
  | _ => simp at hlast

end FaultWording

namespace Diagnostic

/-- The diagnostic reports a fault of nesting. -/
def IsFault (d : Diagnostic) : Prop :=
  ∃ wording, FaultWording d.code wording ∧
    d.message = "Línea " ++ toString d.line ++ ": " ++ wording

/-- What a strict conversion makes of a diagnostic of a lenient one: the same, unless it reports
a fault, which is then an error with advice in place of a warning without. -/
structure Reclassified (lenient strict : Diagnostic) : Prop where
  line_eq : strict.line = lenient.line
  code_eq : strict.code = lenient.code
  message_eq : strict.message = lenient.message
  ne_iff : strict ≠ lenient ↔ lenient.IsFault
  lenient_of_isFault : lenient.IsFault → lenient.category = .warning ∧ lenient.suggestion = none
  strict_of_isFault : lenient.IsFault →
    strict.category = .syntactic ∧ ∃ advice, strict.suggestion = some advice ∧ advice ≠ ""

/-- A diagnostic that is a warning in a strict conversion is one in a lenient conversion, and no
fault. -/
theorem Reclassified.warning_iff {d e : Diagnostic} (h : d.Reclassified e) :
    e.category = .warning ↔ d.category = .warning ∧ ¬ d.IsFault := by
  by_cases hd : d.IsFault
  · simp [hd, (h.strict_of_isFault hd).1]
  · have heq : e = d := by
      by_contra hne
      exact hd (h.ne_iff.1 hne)
    simp [hd, heq]

theorem forall_warning_iff {ds es : List Diagnostic} (h : List.Forall₂ Reclassified ds es) :
    (∀ e ∈ es, e.category = .warning) ↔
      (∀ d ∈ ds, d.category = .warning) ∧ ∀ d ∈ ds, ¬ d.IsFault := by
  induction h with
  | nil => simp
  | cons hd _ ih =>
    simp only [List.forall_mem_cons, ih, hd.warning_iff]
    tauto

end Diagnostic

namespace Notice

variable {n : Notice}

theorem isFault_of_isNesting (strict : Bool) (h : n.cause.isNesting = true) :
    (n.report strict).IsFault := by
  obtain ⟨line, code, cause⟩ := n
  cases cause with
  | strayElse => exact ⟨_, .strayElse, rfl⟩
  | strayCloser => exact ⟨_, .strayCloser, by simp only [report, message, String.append_assoc]⟩
  | wrongCloser opened =>
    exact ⟨_, .wrongCloser opened, by simp only [report, message, String.append_assoc]⟩
  | unclosedBlock kind =>
    exact ⟨_, .unclosedBlock kind, by simp only [report, message, String.append_assoc]⟩
  | unclosedFunction => exact ⟨_, .unclosedFunction, rfl⟩
  | strayFunctionEnd =>
    exact ⟨_, .strayFunctionEnd, by simp only [report, message, String.append_assoc]⟩
  | _ => cases h

theorem isNesting_of_isFault {strict : Bool} (h : (n.report strict).IsFault) :
    n.cause.isNesting = true := by
  obtain ⟨line, code, cause⟩ := n
  obtain ⟨wording, hw, hm⟩ := h
  have hhead := hw.head_mem
  have hfirst := congrArg (fun s => s.toList.head?) hm
  simp only [report, message, String.append_assoc] at hm
  cases cause with
  | promptedInput =>
    simp only [String.append_right_inj] at hm
    exact absurd hm.symm hw.ne_prompt
  | openLiteral | unconvertedLoop | unrecognised =>
    -- after the place, the wording starts with another letter than that of any fault
    simp only [String.append_right_inj] at hm
    subst hm
    simp at hhead
  | unconvertedFunction | missingStart | missingEnd =>
    -- the message does not start with a place
    simp [report, message] at hfirst
  | _ => rfl

/-- **The wording tells the faults.** -/
theorem report_isFault_iff (strict : Bool) (n : Notice) :
    (n.report strict).IsFault ↔ n.cause.isNesting = true :=
  ⟨isNesting_of_isFault, isFault_of_isNesting strict⟩

theorem report_eq_of_isNesting_eq_false (h : n.cause.isNesting = false) :
    n.report true = n.report false := by
  obtain ⟨line, code, cause⟩ := n
  cases cause with
  | strayElse | strayCloser | wrongCloser _ | unclosedBlock _ | unclosedFunction
  | strayFunctionEnd => cases h
  | _ => rfl

theorem reclassified (n : Notice) : (n.report false).Reclassified (n.report true) := by
  refine ⟨rfl, rfl, rfl, ?_, ?_, ?_⟩ <;> rw [report_isFault_iff]
  · constructor
    · intro hne
      by_contra h
      exact hne (report_eq_of_isNesting_eq_false (by simpa using h))
    · intro h heq
      obtain ⟨hlenient, hstrict⟩ := report_of_isNesting h
      rw [hlenient, hstrict] at heq
      cases congrArg Diagnostic.category heq
  · intro h
    rw [(report_of_isNesting h).1]
    exact ⟨rfl, rfl⟩
  · intro h
    rw [(report_of_isNesting h).2]
    exact ⟨rfl, nestingAdvice, rfl, by decide⟩

end Notice

/-! ### Records -/

/-- What two conversions record that differ in strictness. -/
structure Diagnostics.Twins (d d' : Diagnostics) : Prop where
  agree : d.Agree
  agree' : d'.Agree
  details : List.Forall₂ Diagnostic.Reclassified d.details d'.details

namespace Diagnostics.Twins

variable {d d' : Diagnostics} {n : Notice}

theorem empty : Diagnostics.empty.Twins Diagnostics.empty := ⟨agree_empty, agree_empty, .nil⟩

theorem warn (h : d.Twins d') (hn : n.cause.isRemark = true) : (d.warn n).Twins (d'.warn n) where
  agree := h.agree.warn n
  agree' := h.agree'.warn n
  details := by
    have hsame := n.reclassified
    rw [Notice.report_of_isRemark _ hn, Notice.report_of_isRemark _ hn] at hsame
    exact List.rel_append h.details (.cons hsame .nil)

/-- A fault is a warning in one and an error in the other. -/
theorem fault (h : d.Twins d') (hn : n.cause.isNesting = true) :
    (d.warn n).Twins (d'.fail .syntactic n nestingAdvice) where
  agree := h.agree.warn n
  agree' := h.agree'.fail (by decide) n nestingAdvice
  details := by
    have hfault := n.reclassified
    rw [(Notice.report_of_isNesting hn).1, (Notice.report_of_isNesting hn).2] at hfault
    exact List.rel_append h.details (.cons hfault .nil)

theorem fail (h : d.Twins d') {advice : String}
    (hn : ∀ strict, n.report strict = ⟨n.line, n.code, n.message, .structural, advice⟩) :
    (d.fail .structural n advice).Twins (d'.fail .structural n advice) where
  agree := h.agree.fail (by decide) n advice
  agree' := h.agree'.fail (by decide) n advice
  details := by
    have hsame := n.reclassified
    rw [hn, hn] at hsame
    exact List.rel_append h.details (.cons hsame .nil)

end Diagnostics.Twins

/-! ### Lines -/

/-- Two contexts that differ in strictness and in what was recorded for it. -/
structure LineContext.Twins (cx cx' : LineContext) : Prop where
  lenient : cx.opts.strict = false
  strict : cx'.opts.strict = true
  scope_eq : cx'.scope = cx.scope
  diag : cx.diag.Twins cx'.diag

/-- Two steps that write the same and leave such contexts. -/
def LineContext.TwinSteps (s s' : LineResult × LineContext) : Prop := s'.1 = s.1 ∧ s.2.Twins s'.2

namespace LineContext.Twins

variable {cx cx' : LineContext} {n : Notice} {l : SourceLine} {depth : Nat}

theorem warn (h : cx.Twins cx') (hn : n.cause.isRemark = true) : (cx.warn n).Twins (cx'.warn n) :=
  ⟨h.lenient, h.strict, h.scope_eq, h.diag.warn hn⟩

/-- The one place where the options are read. -/
theorem blockProblem (h : cx.Twins cx') (hn : n.cause.isNesting = true) :
    (cx.blockProblem n).Twins (cx'.blockProblem n) := by
  refine ⟨h.lenient, h.strict, h.scope_eq, ?_⟩
  simp only [LineContext.blockProblem, h.lenient, h.strict, if_true, Bool.false_eq_true, if_false]
  exact h.diag.fault hn

theorem withScope (h : cx.Twins cx') (scope : Scope) :
    Twins { cx with scope } { cx' with scope } :=
  ⟨h.lenient, h.strict, rfl, h.diag⟩

theorem withNames (h : cx.Twins cx') (names : Names) :
    (cx.withNames names).Twins (cx'.withNames names) := by
  unfold LineContext.withNames
  rw [h.scope_eq]
  exact h.withScope _

theorem openBlock (h : cx.Twins cx') (kind : BlockKind) (code : List Char) :
    TwinSteps (cx.openBlock kind l code depth) (cx'.openBlock kind l code depth) := by
  refine ⟨rfl, ?_⟩
  simp only [LineContext.openBlock, h.scope_eq]
  exact h.withScope _

theorem closeBlock (h : cx.Twins cx') (kind : BlockKind) (code : List Char) :
    TwinSteps (cx.closeBlock kind l code depth) (cx'.closeBlock kind l code depth) := by
  refine ⟨rfl, ?_⟩
  simp only [LineContext.closeBlock, Scope.pop, h.scope_eq]
  have hpopped := h.withScope { cx.scope with blocks := cx.scope.blocks.tail }
  cases cx.scope.top? with
  | none => exact hpopped.blockProblem rfl
  | some b =>
    by_cases hkind : b.kind = kind
    · simp only [hkind, if_true]
      exact hpopped
    · simp only [hkind, if_false]
      exact hpopped.blockProblem rfl

theorem otherwise (h : cx.Twins cx') :
    TwinSteps (cx.otherwise l depth) (cx'.otherwise l depth) := by
  refine ⟨rfl, ?_⟩
  simp only [LineContext.otherwise, h.scope_eq]
  split
  · exact h.blockProblem rfl
  · exact h

theorem convertKind (h : cx.Twins cx') (kind : LineKind) :
    TwinSteps (cx.convertKind l depth kind) (cx'.convertKind l depth kind) := by
  cases kind with
  | declaration | dimension | assignment =>
    simp only [LineContext.convertKind, h.scope_eq]
    exact ⟨rfl, h.withNames _⟩
  | input =>
    have hwarn := h.warn (n := l.notice .promptedInput) rfl
    simp only [LineContext.convertKind, hwarn.scope_eq]
    exact ⟨rfl, hwarn.withNames _⟩
  | output | call => exact ⟨rfl, h⟩
  | branch | whileLoop | repeatLoop => exact h.openBlock ..
  | otherwise => exact h.otherwise
  | endBranch | endWhile | endCounted | untilLoop => exact h.closeBlock ..
  | countedLoop =>
    simp only [LineContext.convertKind, h.scope_eq]
    cases Header.countedLoop? l.code cx.scope.names with
    | some code => exact h.openBlock ..
    | none => exact (h.warn rfl).openBlock ..

/-- **A line keeps the two conversions in step.** -/
theorem convertLine (h : cx.Twins cx') (l : SourceLine) (depth : Nat) :
    TwinSteps (cx.convertLine l depth) (cx'.convertLine l depth) := by
  have hliteral : Twins (if Scan.unclosed l.code then cx.warn (l.notice .openLiteral) else cx)
      (if Scan.unclosed l.code then cx'.warn (l.notice .openLiteral) else cx') := by
    split
    · exact h.warn rfl
    · exact h
  simp only [LineContext.convertLine]
  cases l.kind? with
  | some kind => exact hliteral.convertKind kind
  | none => exact ⟨rfl, hliteral.warn rfl⟩

end LineContext.Twins

/-! ### Passes -/

/-- Two passes that have written the same and differ in strictness. -/
structure Pass.Twins (p p' : Pass) : Prop where
  context : p.toLineContext.Twins p'.toLineContext
  writer_eq : p'.writer = p.writer

namespace Pass.Twins

variable {p p' : Pass} {n : Notice}

theorem start {d d' : Diagnostics} (h : d.Twins d') :
    (Pass.start ⟨false⟩ d).Twins (Pass.start ⟨true⟩ d') :=
  ⟨⟨rfl, rfl, rfl, h⟩, rfl⟩

theorem blockProblem (h : p.Twins p') (hn : n.cause.isNesting = true) :
    (p.blockProblem n).Twins (p'.blockProblem n) :=
  ⟨h.context.blockProblem hn, h.writer_eq⟩

theorem withWriter (h : p.Twins p') (writer : CodeWriter) :
    Twins { p with writer } { p' with writer } :=
  ⟨h.context, rfl⟩

theorem withScope (h : p.Twins p') (scope : Scope) : Twins { p with scope } { p' with scope } :=
  ⟨h.context.withScope scope, h.writer_eq⟩

theorem comment (h : p.Twins p') (l : SourceLine) : (p.comment l).Twins (p'.comment l) := by
  simp only [Pass.comment, h.writer_eq]
  exact h.withWriter _

theorem feed (h : p.Twins p') (l : SourceLine) : (p.feed l).Twins (p'.feed l) := by
  obtain ⟨hres, hcx⟩ := h.context.convertLine l p.writer.depth
  simp only [Pass.feed, h.writer_eq, hres]
  exact ⟨hcx, rfl⟩

theorem feedBody (h : p.Twins p') (l : SourceLine) : (p.feedBody l).Twins (p'.feedBody l) := by
  unfold Pass.feedBody
  split
  · exact h.comment l
  · exact h.feed l

theorem closeEach (h : p.Twins p') (bs : List OpenBlock) :
    (p.closeEach bs).Twins (p'.closeEach bs) := by
  induction bs generalizing p p' with
  | nil => exact h
  | cons b bs ih =>
    have hreport := h.blockProblem (n := .ofUnclosed b) rfl
    simp only [Pass.closeEach, hreport.writer_eq]
    split
    · exact ih hreport
    · exact ih (hreport.withWriter _)

theorem closeBlocks (h : p.Twins p') : p.closeBlocks.Twins p'.closeBlocks := by
  simp only [Pass.closeBlocks, Scope.drain, h.context.scope_eq]
  have hblocks := (h.withScope { p.scope with blocks := [] }).closeEach p.scope.blocks
  rw [hblocks.writer_eq]
  exact hblocks.withWriter _

theorem returnResult (h : p.Twins p') (result : Option (List Char)) :
    (p.returnResult result).Twins (p'.returnResult result) := by
  cases result with
  | none => exact h
  | some result =>
    simp only [Pass.returnResult, h.writer_eq]
    exact h.withWriter _

theorem closeRoutine (h : p.Twins p') : p.closeRoutine.Twins p'.closeRoutine := by
  have hblocks := h.closeBlocks
  simp only [Pass.closeRoutine, hblocks.writer_eq]
  exact hblocks.withWriter _

end Pass.Twins

/-- Two passes over the main program that differ in strictness. -/
structure MainPass.Twins (m m' : MainPass) : Prop where
  pass : m.toPass.Twins m'.toPass
  name_eq : m'.name = m.name
  isOpen_eq : m'.isOpen = m.isOpen

namespace MainPass.Twins

variable {m m' : MainPass}

theorem finish (h : m.Twins m') : m.finish.Twins m'.finish := by
  simp only [MainPass.finish, h.isOpen_eq]
  split
  · exact h.pass.closeRoutine
  · exact h.pass

theorem step (h : m.Twins m') (l : SourceLine) : (m.step l).Twins (m'.step l) := by
  unfold MainPass.step
  split
  · exact ⟨h.pass.comment l, h.name_eq, h.isOpen_eq⟩
  · split
    · have hfinish := h.finish
      simp only [MainPass.begin, hfinish.writer_eq]
      exact ⟨(hfinish.withScope _).withWriter _, rfl, rfl⟩
    · split
      · exact ⟨h.pass.closeRoutine, h.name_eq, rfl⟩
      · exact ⟨h.pass.feed l, h.name_eq, h.isOpen_eq⟩

theorem run (h : m.Twins m') (ls : List SourceLine) : (m.run ls).Twins (m'.run ls) := by
  induction ls generalizing m m' with
  | nil => exact h
  | cons l ls ih => exact ih (h.step l)

/-- **The two passes over a main program** write the same text under the same name. -/
theorem convert {d d' : Diagnostics} (h : d.Twins d') (ls : List SourceLine) :
    (MainPass.convert ⟨true⟩ d' ls).1 = (MainPass.convert ⟨false⟩ d ls).1 ∧
      (MainPass.convert ⟨false⟩ d ls).2.Twins (MainPass.convert ⟨true⟩ d' ls).2 := by
  have hstart : (MainPass.start ⟨false⟩ d).Twins (MainPass.start ⟨true⟩ d') := ⟨.start h, rfl, rfl⟩
  have hrun := hstart.run ls
  have hfinish := hrun.finish
  simp only [MainPass.convert, hfinish.writer_eq, hrun.name_eq, true_and]
  exact hfinish.context.diag

end MainPass.Twins

/-- Two passes over the functions that differ in strictness. -/
structure FunctionPass.Twins (fp fp' : FunctionPass) : Prop where
  pass : fp.toPass.Twins fp'.toPass
  inFunction_eq : fp'.inFunction = fp.inFunction
  converted_eq : fp'.converted = fp.converted
  returnVar_eq : fp'.returnVar = fp.returnVar
  header_eq : fp'.header = fp.header

namespace FunctionPass.Twins

variable {fp fp' : FunctionPass}

theorem begin (h : fp.Twins fp') (l : SourceLine) : (fp.begin l).Twins (fp'.begin l) := by
  refine ⟨⟨⟨h.pass.context.lenient, h.pass.context.strict, rfl, ?_⟩, ?_⟩, rfl, rfl, rfl, rfl⟩
  · simp only [FunctionPass.begin]
    split
    · exact h.pass.context.diag.warn rfl
    · exact h.pass.context.diag
  · simp only [FunctionPass.begin, h.pass.writer_eq]

theorem finish (h : fp.Twins fp') : fp.finish.Twins fp'.finish := by
  have hresult := h.pass.closeBlocks.returnResult fp.returnVar
  refine ⟨?_, rfl, rfl, rfl, h.header_eq⟩
  simp only [FunctionPass.finish, h.returnVar_eq, h.converted_eq]
  split
  · exact hresult.closeRoutine
  · rw [hresult.writer_eq]
    exact hresult.withWriter _

theorem finishUnended (h : fp.Twins fp') : fp.finishUnended.Twins fp'.finishUnended := by
  have hreport := h.pass.blockProblem (n := fp.header.notice .unclosedFunction) rfl
  unfold FunctionPass.finishUnended
  rw [h.inFunction_eq, h.header_eq]
  split
  · exact finish ⟨hreport, rfl, h.converted_eq, h.returnVar_eq, rfl⟩
  · exact h

theorem step (h : fp.Twins fp') (l : SourceLine) : (fp.step l).Twins (fp'.step l) := by
  unfold FunctionPass.step
  split
  · exact h.finishUnended.begin l
  · split
    · rw [h.inFunction_eq]
      split
      · exact h.finish
      · exact ⟨h.pass.blockProblem rfl, rfl, h.converted_eq, h.returnVar_eq, h.header_eq⟩
    · rw [h.inFunction_eq]
      split
      · exact h
      · exact ⟨h.pass.feedBody l, rfl, h.converted_eq, h.returnVar_eq, h.header_eq⟩

theorem run (h : fp.Twins fp') (ls : List SourceLine) : (fp.run ls).Twins (fp'.run ls) := by
  induction ls generalizing fp fp' with
  | nil => exact h
  | cons l ls ih => exact ih (h.step l)

/-- **The two passes over the functions** write the same text. -/
theorem convert {d d' : Diagnostics} (h : d.Twins d') (ls : List SourceLine) :
    (FunctionPass.convert ⟨true⟩ d' ls).1 = (FunctionPass.convert ⟨false⟩ d ls).1 ∧
      (FunctionPass.convert ⟨false⟩ d ls).2.Twins (FunctionPass.convert ⟨true⟩ d' ls).2 := by
  have hstart : (FunctionPass.start ⟨false⟩ d).Twins (FunctionPass.start ⟨true⟩ d') :=
    ⟨.start h, rfl, rfl, rfl, rfl⟩
  have hend := (hstart.run ls).finishUnended
  exact ⟨congrArg CodeWriter.text hend.pass.writer_eq, hend.pass.context.diag⟩

end FunctionPass.Twins

/-! ### Conversions -/

/-- The outcomes of two conversions that differ in strictness. -/
structure Conversion.Twins (c c' : Conversion) : Prop where
  text_eq : c'.text = c.text
  mainName_eq : c'.mainName = c.mainName
  details : List.Forall₂ Diagnostic.Reclassified c.details c'.details
  agrees : c.Agrees
  agrees' : c'.Agrees

theorem Diagnostics.Twins.result {d d' : Diagnostics} (h : d.Twins d') (text mainName : List Char) :
    (d.result text mainName).Twins (d'.result text mainName) :=
  ⟨rfl, rfl, h.details, h.agree.result .., h.agree'.result ..⟩

theorem convertParts_twins {d d' : Diagnostics} (h : d.Twins d')
    (outside main : List SourceLine) :
    (convertParts ⟨false⟩ d outside main).Twins (convertParts ⟨true⟩ d' outside main) := by
  obtain ⟨hfunctions, hdiag⟩ := FunctionPass.Twins.convert h outside
  obtain ⟨hmain, hall⟩ := MainPass.Twins.convert hdiag main
  simp only [convertParts, hfunctions, hmain]
  exact hall.result ..

/-- **The two conversions of a source.** -/
theorem convertLines_twins (lines : List SourceLine) :
    (convertLines ⟨false⟩ lines).Twins (convertLines ⟨true⟩ lines) := by
  unfold convertLines
  split
  · exact (Diagnostics.Twins.empty.fail fun strict => by cases strict <;> rfl).result ..
  · simp only
    split
    · exact convertParts_twins
        (Diagnostics.Twins.empty.fail fun strict => by cases strict <;> rfl) ..
    · exact convertParts_twins .empty ..

/-- **Strictness only reclassifies.**  The two conversions of a source write the same program under
the same name and say the same things in the same order; only the faults of nesting among them are
errors in one and warnings in the other.  So the strict one succeeds exactly if the lenient one
does and reports no fault. -/
theorem convert_strict_reclassifies (src : String) :
    (convert true src).text = (convert false src).text ∧
    (convert true src).mainName = (convert false src).mainName ∧
    List.Forall₂ Diagnostic.Reclassified (convert false src).details (convert true src).details ∧
    ((convert true src).success = true ↔
      (convert false src).success = true ∧ ∀ d ∈ (convert false src).details, ¬ d.IsFault) := by
  have htwins := convertLines_twins (sourceLines 1 src.toList)
  refine ⟨htwins.text_eq, htwins.mainName_eq, htwins.details, ?_⟩
  exact htwins.agrees'.success_iff.trans ((Diagnostic.forall_warning_iff htwins.details).trans
    (and_congr_left' htwins.agrees.success_iff.symm))

end Pseudocode
