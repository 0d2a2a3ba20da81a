import Pseudocode.History.Store
import Pseudocode.Json.Reader
import Pseudocode.Service.Answer
import Pseudocode.Service.Router
import Pseudocode.Settings.Basic

/-!
# The service

The service converts sources, shows exercises and shows the history of conversions.  A request is
answered from the settings, the catalog and the history, and may add an entry to the history.

* `ConvertRequest.read` : reads what a request to convert asks for.
* `Server.routes` : what the service can be asked for.
* `Server.answer` : the answer to a request.
-/

namespace Pseudocode

/-- A request. -/
structure Request where
  /-- The method, `GET` if it is empty. -/
  method : String
  /-- The path and the query. -/
  target : String
  /-- The body. -/
  body : String
  deriving DecidableEq, Repr

namespace Request

/-- The method of the request, where an empty one stands for `GET`. -/
def verb (r : Request) : String := if r.method.isEmpty then "GET" else r.method

/-- The path of the request, as it is written. -/
def path (r : Request) : List UInt8 := (cutAt (asciiByte '?') (Text.encode r.target.toList)).1

/-- The query of the request, as it is written. -/
def query (r : Request) : List UInt8 := (cutAt (asciiByte '?') (Text.encode r.target.toList)).2

end Request

/-- An answer. -/
structure Response where
  /-- The status. -/
  status : Nat
  /-- The type of the body, if it is given. -/
  contentType : Option String
  /-- The number of the entry that was recorded. -/
  historyId : Option Int
  /-- The body. -/
  body : List Char
  deriving DecidableEq, Repr

/-- What a request to convert asks for. -/
structure ConvertRequest where
  /-- The source. -/
  source : List Char
  /-- Faults of nesting are errors. -/
  strict : Bool
  deriving DecidableEq, Repr

/-- Why a request to convert cannot be read. -/
inductive BodyError
  /-- The body is larger than the limit. -/
  | tooLarge (limit : Nat)
  /-- The body is not what is wanted. -/
  | invalid (reason : String)
  deriving DecidableEq, Repr

/-- Reads the request in a body of which no more bytes than a limit are looked at. -/
def Decoder := (limit : Nat) → (body : List UInt8) → Except BodyError ConvertRequest

namespace ConvertRequest

/-- Sets a field; keys are compared up to letter case, other keys are ignored and `null` changes
nothing. -/
def setField (r : ConvertRequest) (key : List Char) (value : Json) : Option ConvertRequest :=
  if Text.equalFold key "source".toList then
    match value with
    | .null => some r
    | .string g => some { r with source := Text.lossy g }
    | _ => none
  else if Text.equalFold key "strict".toList then
    match value with
    | .null => some r
    | .bool b => some { r with strict := b }
    | _ => none
  else some r

/-- The request that a value describes. -/
def ofJson? : Json → Option ConvertRequest
  | .null => some ⟨[], false⟩
  | .object fields => fields.foldlM (fun r (key, value) => r.setField key value) ⟨[], false⟩
  | _ => none

/-- The value ends with a bracket, so that no further byte is needed to know that it is complete. -/
def isBracketed : Json → Bool
  | .array _ | .object _ => true
  | _ => false

/-- Reads the request from the first value in a body. -/
def read : Decoder := fun limit body =>
  let truncated := limit < body.length
  match Json.read (body.take limit) with
  | .malformed => .error (.invalid "malformed value")
  | .incomplete => .error (if truncated then .tooLarge limit else .invalid "unexpected end")
  | .done value rest =>
    if truncated && rest.isEmpty && !isBracketed value then .error (.tooLarge limit)
    else match ofJson? value with
      | some r => .ok r
      | none => .error (.invalid "value of another type")

end ConvertRequest

/-- What the service answers from. -/
structure Server (δ : Type) where
  /-- Faults of nesting are errors in every conversion. -/
  strict : Bool
  /-- The greatest size of a request. -/
  maxBytes : Nat
  /-- The exercises. -/
  catalog : Catalog
  /-- The database of the history. -/
  db : Sql.Database δ
  /-- Sends requests to what they are for. -/
  router : Router
  /-- Reads requests to convert. -/
  decode : Decoder

namespace Server

variable {δ : Type}

/-- The service with the given settings. -/
def ofSettings (s : Settings) (catalog : Catalog) (db : Sql.Database δ) (router : Router)
    (decode : Decoder) : Server δ where
  strict := s.strict
  maxBytes := (if 0 < s.maxBytes then s.maxBytes else Settings.defaultMaxBytes).toNat
  catalog
  db
  router
  decode

/-- What the service can be asked for. -/
def routes : List Route :=
  [⟨"GET", [.literal "healthz"], .health⟩,
    ⟨"POST", [.literal "v1", .literal "convert"], .convert⟩,
    ⟨"GET", [.literal "v1", .literal "exercises"], .exercises⟩,
    ⟨"GET", [.literal "v1", .literal "exercises", .parameter "id"], .exercise⟩,
    ⟨"GET", [.literal "v1", .literal "exercises", .parameter "id", .literal "conversion"],
      .exerciseConversion⟩,
    ⟨"GET", [.literal "v1", .literal "history"], .history⟩,
    ⟨"GET", [.literal "v1", .literal "history", .parameter "id"], .historyEntry⟩]

/-- An answer with a JSON body; without a body if the value cannot be expressed. -/
def json (status : Nat) (value : Option Json) : Response :=
  ⟨status, some "application/json", none,
    match value with
    | some j => j.compact ++ ['\n']
    | none => []⟩

/-- An answer that says what went wrong. -/
def failure (status : Nat) (message : List Text.Glyph) : Response :=
  json status (some (.obj [("error", .string message)]))

/-- An answer that says what went wrong in plain words. -/
def failureText (status : Nat) (message : String) : Response :=
  failure status (Text.glyphs message.toList)

/-- Converts a source and records the conversion if there is a history. -/
def convert (s : Server δ) (history : Option (Store δ)) (body : String) :
    Response × Option (Store δ) :=
  match s.decode s.maxBytes (Text.encode body.toList) with
  | .error (.tooLarge limit) =>
    (failureText 413 ("request body exceeds " ++ toString limit ++ " bytes"), history)
  | .error (.invalid reason) => (failureText 400 ("invalid request body: " ++ reason), history)
  | .ok r =>
    if (Text.trim r.source).isEmpty then (failureText 400 "source is required", history)
    else
      let source := String.ofList r.source
      let c := Pseudocode.convert (r.strict || s.strict) source
      let answer := json 200 (some c.toJson)
      match history with
      | none => (answer, none)
      | some store =>
        let (recorded, store) := store.record s.db (.ofConversion source c)
        ({ answer with historyId := recorded.toOption.map (·.id) }, some store)

/-- Shows an exercise in the given form. -/
def exercise (s : Server δ) (id : List UInt8) (form : Exercise → Json) : Response :=
  match s.catalog.get (Text.decode id) with
  | .ok e => json 200 (some (form e))
  | .error e => failure 404 e.message

/-- The glyphs without the spaces at their ends. -/
def trimGlyphs (g : List Text.Glyph) : List Text.Glyph :=
  let isSpace (g : Text.Glyph) : Bool := Text.isSpace g.toChar
  ((g.dropWhile isSpace).reverse.dropWhile isSpace).reverse

/-- Quotes a part of the request in a message. -/
def quoting (message : String) (g : List Text.Glyph) : String :=
  message ++ String.ofList (Text.quoteGlyphs g)

/-- The answer for a failure of the history. -/
def historyFailure (e : HistoryError) : Response :=
  match e with
  | .notFound _ => failureText 404 e.message
  | _ => failureText 500 e.message

/-- There is no history. -/
def historyDisabled : Response := failureText 404 "conversion history is disabled"

/-- Shows as many of the newest entries of the history as a limit says. -/
def recentUpTo (s : Server δ) (store : Store δ) (limit : Int) : Response × Store δ :=
  let (found, store) := store.recent s.db limit
  let answer := match found with
    | .ok entries =>
      json 200 ((entries.mapM Entry.toJson?).map fun l => .obj [("conversions", .array l)])
    | .error e => historyFailure e
  (answer, store)

/-- Shows the newest entries of the history.  The limit in the query must not be negative; without
one the history chooses. -/
def recent (s : Server δ) (store : Store δ) (query : List UInt8) : Response × Store δ :=
  let raw := trimGlyphs (Text.decode (Query.first query "limit"))
  if raw.isEmpty then s.recentUpTo store 0
  else match Text.integer (Text.lossy raw) with
    | .ok n =>
      if n < 0 then (failureText 400 (quoting "invalid limit " raw), store)
      else s.recentUpTo store n
    | .error _ => (failureText 400 (quoting "invalid limit " raw), store)

/-- Shows an entry of the history. -/
def historyEntry (s : Server δ) (store : Store δ) (id : List UInt8) : Response × Store δ :=
  let raw := Text.decode id
  match Text.integer (Text.lossy raw) with
  | .error _ => (failureText 400 (quoting "invalid id " raw), store)
  | .ok n =>
    let (found, store) := store.get s.db n
    let answer := match found with
      | .ok entry => json 200 entry.toJson?
      | .error e => historyFailure e
    (answer, store)

/-- Answers from the history, if there is one. -/
def withHistory (history : Option (Store δ)) (respond : Store δ → Response × Store δ) :
    Response × Option (Store δ) :=
  match history with
  | none => (historyDisabled, none)
  | some store =>
    let (answer, store) := respond store
    (answer, some store)

/-- Answers a request for one of the things that the service can be asked for. -/
def handle (s : Server δ) (history : Option (Store δ)) (query : List UInt8) (body : String)
    (id : List UInt8) : Endpoint → Response × Option (Store δ)
  | .health => (⟨200, none, none, "ok".toList⟩, history)
  | .convert => s.convert history body
  | .exercises =>
    let category := Text.lossy (trimGlyphs (Text.decode (Query.first query "category")))
    (json 200 (some (.obj [("exercises",
      .array ((s.catalog.byCategory category).map Exercise.toJson))])), history)
  | .exercise => (s.exercise id Exercise.toJson, history)
  | .exerciseConversion =>
    (s.exercise id fun e => (Pseudocode.convert false e.solution).toJson, history)
  | .history => withHistory history (s.recent · query)
  | .historyEntry => withHistory history (s.historyEntry · id)

/-- Answers a request. -/
def answer (s : Server δ) (history : Option (Store δ)) (r : Request) :
    Response × Option (Store δ) :=
  match s.router routes r.verb r.path with
  | .handler endpoint parameters =>
    s.handle history r.query r.body ((parameters.lookup "id").getD []) endpoint
  | .refused status contentType body => (⟨status, contentType, none, body⟩, history)

end Server

end Pseudocode
