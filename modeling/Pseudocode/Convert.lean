import Pseudocode.Pass

/-!
# Converting a source

The main program runs from the first start marker to the first end marker after it, or to the end
of the source.  The functions before and after it are written first, then the main program, then a
call of it.

* `convertLines` : converts the lines of a source.
* `convert` : converts a source.
-/

namespace Pseudocode

/-- The comments that start every generated program. -/
def preamble : List Piece :=
  [.line 0 "// Código convertido de PSeInt a JavaScript".toList,
   .line 0 ("// Nota: Los índices de arrays se ajustan de PSeInt (1-N) a JavaScript " ++
     "(0-N-1)").toList,
   .blank]

/-- The call that ends every generated program. -/
def finalCall (name : List Char) : List Piece :=
  [.blank, .line 0 "// Ejecutar el algoritmo".toList, .line 0 (name ++ "();".toList)]

/-- Converts a program, given the lines outside its main part and those of the main part. -/
def convertParts (opts : Options) (diag : Diagnostics) (outside main : List SourceLine) :
    Conversion :=
  let (functions, diag) := FunctionPass.convert opts diag outside
  let ((routine, name), diag) := MainPass.convert opts diag main
  let text := render preamble ++ (if functions.isEmpty then [] else functions ++ ['\n']) ++
    routine ++ render (finalCall name)
  diag.result text name

/-- Converts the lines of a source. -/
def convertLines (opts : Options) (lines : List SourceLine) : Conversion :=
  match lines.findIdx? (·.isProgramStart) with
  | none => (Diagnostics.empty.fail .structural .ofMissingStart startAdvice).result [] []
  | some start =>
    let before := lines.take start
    let main := lines.drop start
    match main.tail.findIdx? (·.isProgramEnd) with
    | none =>
      let last := (main.getLast?.map (·.num)).getD 0
      let diag := Diagnostics.empty.fail .structural (.ofMissingEnd last) endAdvice
      convertParts opts diag before main
    | some i =>
      -- the line that ends the program is the last one of its main part
      convertParts opts .empty (before ++ main.drop (i + 2)) (main.take (i + 2))

/-- Converts a source.  A strict conversion takes faults of nesting for errors. -/
def convert (strict : Bool) (src : String) : Conversion :=
  convertLines ⟨strict⟩ (sourceLines 1 src.toList)

end Pseudocode
