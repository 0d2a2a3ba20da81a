import Pseudocode.Dispatch
import Pseudocode.Proofs.Written

/-!
# The record of a conversion

The three lists of a record are written to one entry at a time.  They agree, since each entry goes
to the diagnostics and to one of the two lists of messages (`Diagnostics.Agree`); and what is
recorded is told by the notices alone, once it is known how strict the conversion is.

* `Diagnostics.Agree` : the messages are those of the diagnostics, errors and warnings apart.
* `Diagnostics.reportAll` : the record after some notices.
* `Conversion.ofWritten` : the outcome of what was written.
* `Conversion.Agrees` : the lists of an outcome and its verdict agree.
-/

namespace Pseudocode

namespace Diagnostics

/-! ### The lists agree -/

/-- The messages in the two lists are those of the diagnostics, in order. -/
structure Agree (d : Diagnostics) : Prop where
  errors_eq : d.errors = (d.details.filter (·.isError)).map (·.message)
  warnings_eq : d.warnings = (d.details.filter (!·.isError)).map (·.message)

theorem agree_empty : empty.Agree := ⟨rfl, rfl⟩

theorem Agree.warn {d : Diagnostics} (h : d.Agree) (n : Notice) : (d.warn n).Agree := by
  constructor
  · simp [Diagnostics.warn, h.errors_eq, Diagnostic.isError]
  · simp [Diagnostics.warn, h.warnings_eq, Diagnostic.isError]

theorem Agree.fail {d : Diagnostics} (h : d.Agree) {category : Category}
    (hcategory : category ≠ .warning) (n : Notice) (advice : String) :
    (d.fail category n advice).Agree := by
  constructor
  · simp [Diagnostics.fail, h.errors_eq, Diagnostic.isError, hcategory]
  · simp [Diagnostics.fail, h.warnings_eq, Diagnostic.isError, hcategory]

/-! ### Notices as they are recorded -/

variable {strict : Bool} {n : Notice}

/-- The record after the given notices. -/
def reportAll (strict : Bool) (d : Diagnostics) (ns : List Notice) : Diagnostics where
  errors := d.errors ++ (ns.filter fun n => (n.report strict).isError).map (·.message)
  warnings := d.warnings ++ (ns.filter fun n => !(n.report strict).isError).map (·.message)
  details := d.details ++ ns.map (·.report strict)

@[simp] theorem reportAll_nil (d : Diagnostics) : d.reportAll strict [] = d := by
  simp [reportAll]

theorem reportAll_reportAll (d : Diagnostics) (ns ms : List Notice) :
    (d.reportAll strict ns).reportAll strict ms = d.reportAll strict (ns ++ ms) := by
  simp [reportAll]

theorem Agree.reportAll {d : Diagnostics} (h : d.Agree) (ns : List Notice) :
    (d.reportAll strict ns).Agree := by
  constructor
  · simp only [Diagnostics.reportAll, h.errors_eq, List.filter_append, List.map_append,
      List.filter_map, List.map_map]
    rfl
  · simp only [Diagnostics.reportAll, h.warnings_eq, List.filter_append, List.map_append,
      List.filter_map, List.map_map]
    rfl

theorem warn_eq (d : Diagnostics) (h : n.report strict = n.warning) :
    d.warn n = d.reportAll strict [n] := by
  simp [warn, reportAll, h, Diagnostic.isError, Notice.warning]

theorem fail_eq_of_isNesting (d : Diagnostics) (h : n.cause.isNesting = true) :
    d.fail .syntactic n nestingAdvice = d.reportAll true [n] := by
  simp [fail, reportAll, (Notice.report_of_isNesting h).2, Diagnostic.isError]

theorem fail_ofMissingStart (d : Diagnostics) :
    d.fail .structural .ofMissingStart startAdvice = d.reportAll strict [.ofMissingStart] := by
  simp [fail, reportAll, Notice.report, Notice.ofMissingStart, Cause.category, Cause.suggestion,
    Diagnostic.isError]

theorem fail_ofMissingEnd (d : Diagnostics) (line : Int) :
    d.fail .structural (.ofMissingEnd line) endAdvice =
      d.reportAll strict [.ofMissingEnd line] := by
  simp [fail, reportAll, Notice.report, Notice.ofMissingEnd, Cause.category, Cause.suggestion,
    Diagnostic.isError]

end Diagnostics

namespace LineContext

/-- The context after the given notices. -/
def reportAll (cx : LineContext) (ns : List Notice) : LineContext :=
  { cx with diag := cx.diag.reportAll cx.opts.strict ns }

theorem reportAll_nil (cx : LineContext) : cx.reportAll [] = cx := by
  rw [reportAll, Diagnostics.reportAll_nil]

theorem warn_eq (cx : LineContext) {n : Notice} (h : n.cause.isRemark = true) :
    cx.warn n = cx.reportAll [n] :=
  congrArg (fun diag => { cx with diag }) (cx.diag.warn_eq (Notice.report_of_isRemark _ h))

theorem blockProblem_eq (cx : LineContext) {n : Notice} (h : n.cause.isNesting = true) :
    cx.blockProblem n = cx.reportAll [n] := by
  obtain ⟨scope, diag, ⟨strict⟩⟩ := cx
  cases strict with
  | false =>
    exact congrArg (LineContext.mk scope · ⟨false⟩) (diag.warn_eq (Notice.report_of_isNesting h).1)
  | true => exact congrArg (LineContext.mk scope · ⟨true⟩) (diag.fail_eq_of_isNesting h)

end LineContext

/-! ### Outcomes -/

/-- The lists of an outcome agree, and so does its verdict. -/
structure Conversion.Agrees (c : Conversion) : Prop where
  errors_eq : c.errors = (c.details.filter (·.isError)).map (·.message)
  warnings_eq : c.warnings = (c.details.filter (!·.isError)).map (·.message)
  success_eq : c.success = c.errors.isEmpty

theorem Diagnostics.Agree.result {d : Diagnostics} (h : d.Agree) (text mainName : List Char) :
    (d.result text mainName).Agrees :=
  ⟨h.errors_eq, h.warnings_eq, rfl⟩

namespace Conversion

theorem Agrees.success_iff {c : Conversion} (h : c.Agrees) :
    c.success = true ↔ ∀ d ∈ c.details, d.category = .warning := by
  simp [h.success_eq, h.errors_eq, Diagnostic.isError]

/-- The outcome of what was written. -/
def ofWritten (strict : Bool) (w : Written) (mainName : List Char) : Conversion :=
  (Diagnostics.empty.reportAll strict w.notices).result (render w.pieces) mainName

variable (strict : Bool) (w : Written) (mainName : List Char)

theorem ofWritten_agrees : (ofWritten strict w mainName).Agrees :=
  (Diagnostics.agree_empty.reportAll w.notices).result ..

@[simp] theorem ofWritten_text :
    (ofWritten strict w mainName).text = String.ofList (render w.pieces) :=
  rfl

@[simp] theorem ofWritten_mainName :
    (ofWritten strict w mainName).mainName = String.ofList mainName :=
  rfl

@[simp] theorem ofWritten_details :
    (ofWritten strict w mainName).details = w.notices.map (·.report strict) :=
  rfl

end Conversion

end Pseudocode
