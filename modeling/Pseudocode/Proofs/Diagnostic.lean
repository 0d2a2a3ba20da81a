import Pseudocode.Proofs.Routine.Notices

/-!
# What the wording of a diagnostic tells

A result holds diagnostics and not the notices they come from.  Their wording is enough to tell the
three kinds that do not quote a line of the source: a block without a terminator, and a program
without a start or an end.

* `Notice.unclosed?_report` : **the wording tells which block is left open.**
* `Notice.report_isMissingStart_iff`, `Notice.report_isMissingEnd_iff` : it tells the missing
  markers.
-/

namespace Pseudocode

namespace BlockKind

/-- All kinds of blocks. -/
def all : List BlockKind := [branch, whileLoop, countedLoop, repeatLoop, other]

theorem mem_all (kind : BlockKind) : kind ∈ all := by cases kind <;> decide

theorem keyword_inj {kind kind' : BlockKind} (h : kind.keyword = kind'.keyword) : kind = kind' := by
  revert h
  cases kind <;> cases kind' <;> decide

end BlockKind

namespace Diagnostic

/-- The diagnostic says that a block of the given kind is left open. -/
def saysUnclosed (d : Diagnostic) (kind : BlockKind) : Bool :=
  d.message == "Línea " ++ toString d.line ++ ": " ++ "bloque '" ++ kind.keyword ++ "' sin cerrar"

/-- The block that the diagnostic reports to be left open, if it reports one. -/
def unclosed? (d : Diagnostic) : Option OpenBlock :=
  (BlockKind.all.find? d.saysUnclosed).map (⟨·, d.line⟩)

/-- The diagnostic says that the program has no start. -/
def IsMissingStart (d : Diagnostic) : Prop := d.message = "Falta la declaración 'Algoritmo nombre'"

/-- The diagnostic says that the program has no end. -/
def IsMissingEnd (d : Diagnostic) : Prop := d.message = "Falta 'FinAlgoritmo' al final"

end Diagnostic

namespace Notice

theorem saysUnclosed_report_iff {strict : Bool} {n : Notice} {kind : BlockKind} :
    (n.report strict).saysUnclosed kind = true ↔ n.cause = .unclosedBlock kind := by
  obtain ⟨line, code, cause⟩ := n
  simp only [Diagnostic.saysUnclosed, report, message, beq_iff_eq, String.append_assoc]
  constructor
  · intro h
    have hhead := congrArg (fun s => s.toList.head?) h
    cases cause with
    | unclosedBlock kind' =>
      simp only [String.append_right_inj, String.append_left_inj] at h
      rw [BlockKind.keyword_inj h]
    | unconvertedFunction | missingStart | missingEnd =>
      -- the message does not start with a place
      simp at hhead
    | _ =>
      -- after the place, the wording starts with another letter
      simp only [String.append_right_inj] at h
      have hletter := congrArg (fun s => s.toList.head?) h
      simp at hletter
  · rintro rfl
    rfl

/-- **The wording tells which block is left open.** -/
theorem unclosed?_report (strict : Bool) (n : Notice) :
    (n.report strict).unclosed? = n.unclosed? := by
  have hline : (n.report strict).line = n.line := rfl
  cases hfind : BlockKind.all.find? (n.report strict).saysUnclosed with
  | some kind =>
    have hcause := saysUnclosed_report_iff.1 (List.find?_some hfind)
    simp [Diagnostic.unclosed?, hfind, unclosed?, hcause, hline]
  | none =>
    simp only [Diagnostic.unclosed?, hfind, unclosed?, Option.map_none]
    split
    · rename_i kind hcause
      have := List.find?_eq_none.1 hfind kind (BlockKind.mem_all kind)
      exact absurd (saysUnclosed_report_iff.2 hcause) this
    · rfl

/-- Only the missing markers are reported in words that start like this. -/
theorem cause_of_message {n : Notice} (h : "Falta".toList <+: n.message.toList) :
    n.cause = .missingStart ∨ n.cause = .missingEnd := by
  obtain ⟨line, code, cause⟩ := n
  cases cause with
  | missingStart => exact .inl rfl
  | missingEnd => exact .inr rfl
  | unconvertedFunction => simp [message, List.cons_prefix_cons] at h
  | _ => simp [message, String.append_assoc, List.cons_prefix_cons] at h

theorem report_isMissingStart_iff {strict : Bool} {n : Notice} :
    (n.report strict).IsMissingStart ↔ n.cause = .missingStart := by
  obtain ⟨line, code, cause⟩ := n
  constructor
  · intro h
    have hmessage : message ⟨line, code, cause⟩ = "Falta la declaración 'Algoritmo nombre'" := h
    obtain h | rfl := cause_of_message (n := ⟨line, code, cause⟩) (by rw [hmessage]; decide)
    · exact h
    · simp [message] at hmessage
  · rintro rfl
    rfl

theorem report_isMissingEnd_iff {strict : Bool} {n : Notice} :
    (n.report strict).IsMissingEnd ↔ n.cause = .missingEnd := by
  obtain ⟨line, code, cause⟩ := n
  constructor
  · intro h
    have hmessage : message ⟨line, code, cause⟩ = "Falta 'FinAlgoritmo' al final" := h
    obtain rfl | h := cause_of_message (n := ⟨line, code, cause⟩) (by rw [hmessage]; decide)
    · simp [message] at hmessage
    · exact h
  · rintro rfl
    rfl

end Notice

end Pseudocode
