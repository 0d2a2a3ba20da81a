import Pseudocode.Layout
import Pseudocode.Scan.TopLevel
import Pseudocode.Text.Word

/-!
# Function headers

A header is written in one of four forms, which are tried in this order:

* `Funcion r <- N(ps)`, with blanks before the arrow,
* `Funcion N(ps) : r`,
* `Funcion r<-N(ps)`,
* `Funcion N(ps)` or `Funcion N`, without a result.
-/

namespace Pseudocode

namespace Header

/-- The parts of a function header. -/
structure Function where
  /-- The name of the function. -/
  name : List Char
  /-- The names of its parameters. -/
  params : List (List Char)
  /-- The variable that holds its result. -/
  result : Option (List Char)
  deriving DecidableEq, Repr

namespace Function

/-- A parameter without the given way it is passed; none if it is not passed so. -/
def withoutMode? (mode param : List Char) : Option (List Char) :=
  (Text.dropLastKey? mode param).bind fun s => (Text.dropLastBlanks? s).bind fun s =>
    (Text.dropLastKey? "por".toList s).bind Text.dropLastBlanks?

/-- A parameter without the way it is passed, `Por Valor` or `Por Referencia`. -/
def paramName (param : List Char) : List Char :=
  Text.trim ((withoutMode? "referencia".toList param <|>
    withoutMode? "valor".toList param).getD param)

/-- The names in a list of parameters. -/
def paramNames (s : List Char) : List (List Char) :=
  ((Scan.splitTopLevel ',' s).map paramName).filter (!·.isEmpty)

/-- Reads a name and the opening parenthesis after it: the name and what follows. -/
def splitNameAndParen? (s : List Char) : Option (List Char × List Char) := do
  let (name, s) ← Text.splitWord? s
  match Text.skipBlanks s with
  | '(' :: s => some (name, s)
  | _ => none

/-- The text up to the first closing parenthesis, if no line feed stands before it. -/
def upToParen? : List Char → Option (List Char)
  | [] => none
  | c :: cs =>
    if c = ')' then some [] else if c = '\n' then none else (upToParen? cs).map (c :: ·)

/-- Reads `: r` off the front of a text: the name `r`. -/
def resultAfterColon? (s : List Char) : Option (List Char) :=
  match Text.skipBlanks s with
  | ':' :: s => (Text.splitWord? (Text.skipBlanks s)).map (·.1)
  | _ => none

/-- The parameters up to the first closing parenthesis that is followed by `: r`, and the name
`r`; no line feed may stand among the parameters. -/
def paramsAndResult? : List Char → Option (List Char × List Char)
  | [] => none
  | c :: cs =>
    let onward :=
      if c = '\n' then none
      else (paramsAndResult? cs).map fun (params, result) => (c :: params, result)
    if c = ')' then
      match resultAfterColon? cs with
      | some result => some ([], result)
      | none => onward
    else onward

/-- The parameters if a closing parenthesis ends the text and no line feed stands among them. -/
def paramsToEnd? (s : List Char) : Option (List Char) :=
  if s.getLast? = some ')' && '\n' ∉ s.dropLast then some s.dropLast else none

/-- Reads `N(ps)` after the arrow of a header with the result `r`. -/
def afterArrow? (result s : List Char) : Option Function := do
  let (name, s) ← splitNameAndParen? (Text.skipBlanks s)
  let params ← upToParen? s
  return ⟨name, paramNames params, some result⟩

/-- The form `r <- N(ps)`. -/
def spacedArrow? (s : List Char) : Option Function := do
  let (result, s) ← Text.splitWord? s
  match ← Text.skipSomeBlanks? s with
  | '<' :: '-' :: s => afterArrow? result s
  | _ => none

/-- The form `N(ps) : r`. -/
def colon? (s : List Char) : Option Function := do
  let (name, s) ← splitNameAndParen? s
  let (params, result) ← paramsAndResult? s
  return ⟨name, paramNames params, some result⟩

/-- The form `r<-N(ps)`. -/
def tightArrow? (s : List Char) : Option Function := do
  let (result, s) ← Text.splitWord? s
  match s with
  | '<' :: '-' :: s => afterArrow? result s
  | _ => none

/-- The form `N(ps)` or `N`. -/
def plain? (s : List Char) : Option Function := do
  let (name, s) ← Text.splitWord? s
  match Text.skipBlanks s with
  | [] => some ⟨name, [], none⟩
  | '(' :: s => (paramsToEnd? s).map fun params => ⟨name, paramNames params, none⟩
  | _ => none

/-- The keywords that start a header. -/
def keywords : List (List Char) :=
  ["funcion".toList, "función".toList, "subproceso".toList]

/-- Reads a function header. -/
def ofText? (line : List Char) : Option Function := do
  let (_, s) ← Text.splitAnyKey? keywords line
  let s ← Text.skipSomeBlanks? s
  spacedArrow? s <|> colon? s <|> tightArrow? s <|> plain? s

/-- The line that opens the generated function. -/
def opening (f : Function) : List Char :=
  "function ".toList ++ f.name ++ "(".toList ++ Text.join ", ".toList f.params ++
    ") \x7b".toList

/-- The line that declares the result, if there is one. -/
def resultDeclaration (f : Function) : Option (List Char) :=
  f.result.map fun r => "let ".toList ++ r ++ ";".toList

/-- The lines that open the generated function. -/
def pieces (f : Function) : List Piece :=
  .line 0 f.opening :: f.resultDeclaration.toList.map (.line 1)

/-- The text of these lines, without the last line feed. -/
def code (f : Function) : List Char := (render f.pieces).dropLast

end Function

/-- The comment that keeps a header that cannot be read. -/
def unconvertedFunction (line : List Char) : List Char :=
  "// Función no convertida: ".toList ++ line

end Header

end Pseudocode
