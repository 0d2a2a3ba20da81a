import Pseudocode.Proofs.Pass.Convert
import Pseudocode.Proofs.Program.Parts
import Pseudocode.Proofs.Verdict
import Pseudocode.Proofs.Written

/-!
# The call that ends a program

A source may start its program several times.  Each start marker gives the routine that it begins a
name, and the last one gives the name that is called at the end of the generated program.

* `SourceLine.programName_isIdentifier` : a start marker always gives an identifier.
* `Program.lastStart?` : the last start marker of the main program.
* `Program.exists_render_convert` : how the text of a program begins and ends.
* `convert_calls_emitted_routine` : **the call at the end names a routine that stands before it.**
-/

namespace Pseudocode

/-! ### Names of programs -/

/-- **A start marker always gives an identifier,** its own or the one that stands in for it. -/
theorem SourceLine.programName_isIdentifier (l : SourceLine) :
    Text.IsIdentifier l.programName := by
  have hdefault : Text.IsIdentifier defaultProgramName :=
    ⟨'p', "rograma".toList, rfl, by decide, List.all_eq_true.1 (by decide)⟩
  unfold programName
  split
  · split
    · exact hdefault
    · rename_i hname
      exact Text.identifier_isIdentifier fun hnil => hname (by rw [hnil]; rfl)
  · exact hdefault

namespace Program

/-! ### The last start marker -/

/-- The lines of the main program: from the first start marker up to the first end marker behind it,
or to the end of the source. -/
def mainLines (lines : List SourceLine) : List SourceLine :=
  let main := lines.dropWhile (!·.isProgramStart)
  main.take 1 ++ main.tail.takeWhile (!·.isProgramEnd)

/-- The last start marker of the main program. -/
def lastStart? (lines : List SourceLine) : Option SourceLine :=
  ((mainLines lines).filter (·.isProgramStart)).getLast?

theorem filter_isProgramStart (ls : List SourceLine) :
    ls.filter (·.isProgramStart) = (cutAtStarts ls).2.map (·.start) := by
  induction ls with
  | nil => rfl
  | cons l ls ih =>
    simp only [List.filter_cons, cutAtStarts]
    split
    · rw [List.map_cons, ih]
    · exact ih

/-- The last main routine of a program. -/
def last (p : Program) : MainRoutine := p.others.getLast?.getD p.first

theorem lastStart?_of_ofLines? {lines : List SourceLine} {p : Program}
    (h : ofLines? lines = some p) : lastStart? lines = some p.last.start := by
  simp only [ofLines?] at h
  split at h
  · cases h
  · rename_i start rest hmain
    have hstart : start.isProgramStart = true := by
      simpa [hmain] using List.head?_dropWhile_not (!·.isProgramStart) lines
    have hlast : lastStart? lines =
        some (((cutAtStarts (rest.takeWhile (!·.isProgramEnd))).2.map (·.start)).getLast?.getD
          start) := by
      simp only [lastStart?, mainLines, hmain, List.take_succ_cons, List.take_zero, List.tail_cons,
        List.singleton_append, List.filter_cons, hstart, if_true, filter_isProgramStart,
        List.getLast?_cons]
    rw [hlast, List.getLast?_map]
    split at h <;> cases h <;> (unfold last; cases List.getLast? _ <;> rfl)

end Program

/-! ### The text of a program -/

theorem Piece.text_line_zero (code : List Char) : (line 0 code).text = code ++ ['\n'] := rfl

/-- The comments that start every generated program, as a text. -/
def headerText : String :=
  "// Código convertido de PSeInt a JavaScript\n" ++
    "// Nota: Los índices de arrays se ajustan de PSeInt (1-N) a JavaScript (0-N-1)\n\n"

theorem render_preamble : render preamble = headerText.toList := by decide +kernel

theorem MainRoutine.exists_render_convert (s : MainRoutine) :
    ∃ body, render s.convert.pieces = "// Algoritmo: ".toList ++ (s.start.programName ++
      ("\nfunction ".toList ++ (s.start.programName ++ ("() \x7b\n".toList ++ body)))) := by
  refine ⟨render ((Routine.start 1).feedBodies s.body).1.pieces ++
    render ((Routine.start 1).feedBodies s.body).2.close.1.pieces, ?_⟩
  simp only [convert, Written.pieces_append, Written.pieces_code, render_append, render_cons,
    render_nil, Piece.text_line_zero, List.append_assoc, List.append_nil]
  rfl

theorem pieces_foldr_append (ws : List Written) :
    (ws.foldr (· ++ ·) Written.empty).pieces = ws.flatMap (·.pieces) := by
  induction ws with
  | nil => rfl
  | cons w ws ih => rw [List.foldr_cons, Written.pieces_append, ih, List.flatMap_cons]

namespace Program

theorem exists_routines_eq (p : Program) : ∃ front, p.routines = front ++ [p.last] := by
  have hlast : p.routines.getLast? = some p.last := List.getLast?_cons
  exact ⟨_, (List.dropLast_append_getLast? p.last hlast).symm⟩

/-- **How the text of a program begins and ends.**  The last routine stands in it with the name that
is called at its end. -/
theorem exists_render_convert (p : Program) :
    ∃ front body, render p.convert.pieces = headerText.toList ++ (front ++
      ("\nfunction ".toList ++ (p.name ++ ("() \x7b\n".toList ++ (body ++
        ("\n// Ejecutar el algoritmo\n".toList ++ (p.name ++ "();\n".toList))))))) := by
  obtain ⟨earlier, hroutines⟩ := p.exists_routines_eq
  obtain ⟨body, hbody⟩ := p.last.exists_render_convert
  have hname : p.last.start.programName = p.name := rfl
  refine ⟨render (convertFunctions p.outside).pieces ++
    (render (if (convertFunctions p.outside).pieces.isEmpty then [] else [.blank]) ++
      (render (earlier.flatMap (·.convert.pieces)) ++ ("// Algoritmo: ".toList ++ p.name))),
    body, ?_⟩
  simp only [convert, hroutines, finalCall, Written.pieces_append, Written.pieces_code,
    pieces_foldr_append, List.map_append, List.map_cons, List.map_nil, List.flatMap_append,
    List.flatMap_map, List.flatMap_cons, List.flatMap_nil, List.append_nil, List.nil_append,
    render_append, render_cons, render_nil, render_preamble, hbody, hname, Piece.text_line_zero,
    List.append_assoc]
  rfl

end Program

/-- **The call at the end names a routine that stands before it.**  A source that starts a program
becomes a text with the fixed comments at its front and a call at its end.  The name that is called
is the one of the last start marker; it is an identifier, and a line before the call opens the
function of that name. -/
theorem convert_calls_emitted_routine (strict : Bool) (src : String)
    (h : ∃ l ∈ sourceLines 1 src.toList, l.isProgramStart = true) :
    let name := (convert strict src).mainName
    (∃ start, Program.lastStart? (sourceLines 1 src.toList) = some start ∧
      name.toList = start.programName ∧ Text.IsIdentifier name.toList) ∧
    ∃ front body, (convert strict src).text =
      headerText ++ front ++ "\nfunction " ++ name ++ "() \x7b\n" ++ body ++
        "\n// Ejecutar el algoritmo\n" ++ name ++ "();\n" := by
  intro name
  obtain ⟨p, hp⟩ : ∃ p, Program.ofLines? (sourceLines 1 src.toList) = some p := by
    obtain ⟨l, hl, hstart⟩ := h
    refine Option.ne_none_iff_exists'.1 fun hnone => ?_
    rw [Program.ofLines?_eq_none_iff.1 hnone l hl] at hstart
    cases hstart
  have hconvert : convert strict src = .ofWritten strict p.convert p.name := by
    rw [convert_eq, hp]
  have hname : name = String.ofList p.name := congrArg Conversion.mainName hconvert
  constructor
  · refine ⟨p.last.start, Program.lastStart?_of_ofLines? hp, ?_, ?_⟩
    · rw [hname, String.toList_ofList]
      rfl
    · rw [hname, String.toList_ofList]
      exact SourceLine.programName_isIdentifier _
  · obtain ⟨front, body, htext⟩ := p.exists_render_convert
    refine ⟨String.ofList front, String.ofList body, ?_⟩
    rw [hconvert, hname, ← String.toList_inj]
    simp only [Conversion.ofWritten_text, htext, String.toList_append, String.toList_ofList,
      List.append_assoc]

/-- The program is started three times and never ended, and the last start marker gives no
identifier. -/
theorem convert_calls_default_routine :
    let src := "Algoritmo uno\nProceso ñu-2\nSi x Entonces\nAlgoritmo 3"
    let name := (convert true src).mainName
    ((∃ l ∈ sourceLines 1 src.toList, l.isProgramStart = true) ∧ name = "programa") ∧
    (∃ start, Program.lastStart? (sourceLines 1 src.toList) = some start ∧
      name.toList = start.programName ∧ Text.IsIdentifier name.toList) ∧
    ∃ front body, (convert true src).text =
      headerText ++ front ++ "\nfunction " ++ name ++ "() \x7b\n" ++ body ++
        "\n// Ejecutar el algoritmo\n" ++ name ++ "();\n" := by
  intro src name
  have h : ∃ l ∈ sourceLines 1 src.toList, l.isProgramStart = true :=
    ⟨(sourceLines 1 src.toList).head (by decide +kernel), List.head_mem _, by decide +kernel⟩
  exact ⟨⟨h, by decide +kernel⟩, convert_calls_emitted_routine true src h⟩

end Pseudocode
