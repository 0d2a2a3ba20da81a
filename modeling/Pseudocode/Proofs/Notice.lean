import Pseudocode.Diagnostics

/-!
# How notices are reported

Most notices are warnings; a cause of nesting is an error in strict conversions and a warning in
lenient ones, and a missing start or end of the program is always an error.  So a notice and the
options of a conversion say all that there is to be recorded.

* `Notice.report` : the diagnostic, given how strict the conversion is.
-/

namespace Pseudocode

namespace Cause

/-- The cause is a fault of nesting. -/
def isNesting : Cause → Bool
  | strayElse | strayCloser | wrongCloser _ | unclosedBlock _ | unclosedFunction
  | strayFunctionEnd => true
  | _ => false

/-- The cause is a remark on a line: a warning however strict the conversion is. -/
def isRemark : Cause → Bool
  | openLiteral | promptedInput | unconvertedLoop | unrecognised | unconvertedFunction => true
  | _ => false

/-- The class of a diagnostic with this cause. -/
def category (strict : Bool) : Cause → Category
  | missingStart | missingEnd => .structural
  | cause => if strict && cause.isNesting then .syntactic else .warning

/-- The advice that goes with the cause. -/
def suggestion (strict : Bool) : Cause → Option String
  | missingStart => startAdvice
  | missingEnd => endAdvice
  | cause => if strict && cause.isNesting then nestingAdvice else none

end Cause

/-- The notice as it is reported. -/
def Notice.report (strict : Bool) (n : Notice) : Diagnostic :=
  ⟨n.line, n.code, n.message, n.cause.category strict, n.cause.suggestion strict⟩

namespace Notice

variable {n : Notice}

/-- The notice as a warning, which comes without advice. -/
def warning (n : Notice) : Diagnostic := ⟨n.line, n.code, n.message, .warning, none⟩

theorem report_of_isRemark (strict : Bool) (h : n.cause.isRemark = true) :
    n.report strict = n.warning := by
  obtain ⟨line, code, cause⟩ := n
  cases cause with
  | openLiteral | promptedInput | unconvertedLoop | unrecognised | unconvertedFunction =>
    cases strict <;> rfl
  | _ => cases h

/-- A fault of nesting is a warning in a lenient conversion, and an error with advice in a strict
one. -/
theorem report_of_isNesting (h : n.cause.isNesting = true) :
    n.report false = n.warning ∧
      n.report true = ⟨n.line, n.code, n.message, .syntactic, nestingAdvice⟩ := by
  obtain ⟨line, code, cause⟩ := n
  cases cause with
  | strayElse | strayCloser | wrongCloser _ | unclosedBlock _ | unclosedFunction
  | strayFunctionEnd => exact ⟨rfl, rfl⟩
  | _ => cases h

end Notice

end Pseudocode
