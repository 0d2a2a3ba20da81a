import Pseudocode.Scope

/-!
# Diagnostics

What a conversion has to say about a line is a notice with a cause.  A diagnostic is a notice as it
is reported, with its wording and its class.

* `Cause` : why a notice is given.
* `Notice.message` : its wording.
-/

namespace Pseudocode

/-- The classes of diagnostics. -/
inductive Category
  /-- The start or the end of the program is missing. -/
  | structural
  /-- Blocks or functions are not nested properly. -/
  | syntactic
  /-- The conversion itself failed. -/
  | conversion
  /-- A note on a line that was converted. -/
  | warning
  /-- A class of another name. -/
  | named (label : String)
  deriving DecidableEq, Repr

namespace Category

/-- The name of a class. -/
def label : Category → String
  | structural => "structure"
  | syntactic => "syntax"
  | conversion => "conversion"
  | warning => "warning"
  | named label => label

/-- The class of the given name. -/
def ofLabel : String → Category
  | "structure" => structural
  | "syntax" => syntactic
  | "conversion" => conversion
  | "warning" => warning
  | label => named label

end Category

/-- An error or a warning about a source line. -/
structure Diagnostic where
  /-- The number of the line, 0 if it is about no line. -/
  line : Int
  /-- The code it is about. -/
  code : String
  /-- What is to be said. -/
  message : String
  /-- The class. -/
  category : Category
  /-- Advice, if there is any. -/
  suggestion : Option String
  deriving DecidableEq, Repr

namespace Diagnostic

/-- The diagnostic makes a conversion fail. -/
def isError (d : Diagnostic) : Bool := d.category != .warning

/-- The diagnostic on one line. -/
def summary (d : Diagnostic) : String :=
  (if 0 < d.line then toString d.line ++ ": " else "") ++ d.category.label ++ ": " ++ d.message

end Diagnostic

/-- Why a notice is given. -/
inductive Cause
  /-- The line ends inside a literal. -/
  | openLiteral
  /-- Input has become a prompt. -/
  | promptedInput
  /-- The header of a counted loop cannot be read. -/
  | unconvertedLoop
  /-- The line is of no known form. -/
  | unrecognised
  /-- The header of a function cannot be read. -/
  | unconvertedFunction
  /-- `Sino` stands outside a conditional. -/
  | strayElse
  /-- A terminator stands where no block is open. -/
  | strayCloser
  /-- A terminator stands where a block of another kind is open. -/
  | wrongCloser (opened : OpenBlock)
  /-- The block has no terminator. -/
  | unclosedBlock (kind : BlockKind)
  /-- The function has no end. -/
  | unclosedFunction
  /-- A function ends where none is open. -/
  | strayFunctionEnd
  /-- The program has no start. -/
  | missingStart
  /-- The program has no end. -/
  | missingEnd
  deriving DecidableEq, Repr

/-- Something to be said about a source line. -/
structure Notice where
  /-- The number of the line, 0 if it is about no line. -/
  line : Int
  /-- The code it is about. -/
  code : String
  /-- Why it is said. -/
  cause : Cause
  deriving DecidableEq, Repr

namespace Notice

/-- The wording of a notice. -/
def message (n : Notice) : String :=
  let place := "Línea " ++ toString n.line ++ ": "
  match n.cause with
  | .openLiteral => place ++ "cadena de texto sin cerrar"
  | .promptedInput => place ++ "'Leer' convertido a prompt()"
  | .unconvertedLoop => place ++ "Estructura Para requiere revisión manual"
  | .unrecognised => place ++ "\"" ++ n.code ++ "\" - requiere revisión manual"
  | .unconvertedFunction =>
    "Función en línea " ++ toString n.line ++ ": No se pudo convertir completamente"
  | .strayElse => place ++ "'Sino' fuera de un bloque 'Si'"
  | .strayCloser => place ++ "'" ++ n.code ++ "' sin bloque abierto"
  | .wrongCloser opened =>
    place ++ "'" ++ n.code ++ "' no corresponde con el bloque '" ++ opened.kind.keyword ++
      "' abierto en la línea " ++ toString opened.line
  | .unclosedBlock kind => place ++ "bloque '" ++ kind.keyword ++ "' sin cerrar"
  | .unclosedFunction => place ++ "la función no tiene 'FinFuncion'"
  | .strayFunctionEnd => place ++ "'" ++ n.code ++ "' sin función abierta"
  | .missingStart => "Falta la declaración 'Algoritmo nombre'"
  | .missingEnd => "Falta 'FinAlgoritmo' al final"

/-- A block has no terminator. -/
def ofUnclosed (b : OpenBlock) : Notice := ⟨b.line, b.kind.keyword, .unclosedBlock b.kind⟩

/-- The program has no start. -/
def ofMissingStart : Notice := ⟨0, "Algoritmo nombre", .missingStart⟩

/-- The program has no end; `line` is its last line. -/
def ofMissingEnd (line : Int) : Notice := ⟨line, "FinAlgoritmo", .missingEnd⟩

end Notice

/-! ### Advice -/

/-- The advice on a program without a start. -/
def startAdvice : String := "Comienza el programa con una línea 'Algoritmo NombreDelPrograma'"

/-- The advice on a program without an end. -/
def endAdvice : String := "Termina el programa con una línea 'FinAlgoritmo'"

/-- The advice on blocks and functions that are not nested properly. -/
def nestingAdvice : String :=
  "Cierra cada bloque con su terminador, en orden inverso al de apertura"

end Pseudocode
