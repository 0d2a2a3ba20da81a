import Pseudocode.Catalog.Basic
import Pseudocode.History.Entry
import Pseudocode.Json.Writer

/-!
# Answers as JSON

The values that the command line and the service give out.
-/

namespace Pseudocode

/-- A diagnostic as JSON; advice is left out where there is none. -/
def Diagnostic.toJson (d : Diagnostic) : Json :=
  .obj ([("line", .int d.line), ("code", .str d.code), ("message", .str d.message),
    ("type", .str d.category.label)] ++ (d.suggestion.map fun s => ("suggestion", .str s)).toList)

/-- A conversion as JSON. -/
def Conversion.toJson (c : Conversion) : Json :=
  .obj [("success", .bool c.success), ("generatedText", .str c.text), ("mainName", .str c.mainName),
    ("errors", .strs c.errors), ("warnings", .strs c.warnings),
    ("detailedErrors", .array (c.details.map Diagnostic.toJson))]

/-- An exercise as JSON. -/
def Exercise.toJson (e : Exercise) : Json :=
  .obj [("id", .str e.id), ("title", .str e.title), ("difficulty", .str e.difficulty),
    ("category", .str e.category), ("description", .str e.description),
    ("instructions", .strs e.instructions), ("hints", .strs e.hints),
    ("expectedOutput", .str e.expectedOutput), ("solution", .str e.solution)]

/-- An entry of the history as JSON; none if its time cannot be expressed. -/
def Entry.toJson? (e : Entry) : Option Json :=
  if e.createdAt.isExpressible then
    some (.obj [("id", .int e.id), ("createdAt", .str (String.ofList e.createdAt.text)),
      ("mainName", .str e.mainName), ("success", .bool e.success),
      ("warnings", .int e.warnings), ("errors", .int e.errors),
      ("sourceHash", .str e.sourceHash)])
  else none

end Pseudocode
