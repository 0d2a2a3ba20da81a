import Pseudocode.History.Database
import Pseudocode.History.Entry
import Pseudocode.Text.Space

/-!
# The history of conversions

The history is a table of a database, to which entries are only ever added.

* `Row` : an entry as the table holds it.
* `Store.openAt` : opens the history at a path.
* `Store.record` : adds an entry.
* `Store.get`, `Store.recent` : read entries.
-/

namespace Pseudocode

open Sql (Record Column)

/-! ### Rows -/

/-- A row of the table of conversions. -/
structure Row where
  /-- The number of the entry. -/
  id : Int
  /-- When it was recorded, in milliseconds since the start of 1970. -/
  createdAt : Int
  /-- The name of the main routine. -/
  mainName : String
  /-- The conversion had no error. -/
  success : Bool
  /-- The number of warnings. -/
  warnings : Int
  /-- The number of errors. -/
  errors : Int
  /-- The digest of the source. -/
  sourceHash : String
  deriving DecidableEq, Repr

namespace Row

/-- The entry that a row holds. -/
def entry (r : Row) : Entry where
  id := r.id
  createdAt := ⟨r.createdAt⟩
  mainName := r.mainName
  success := r.success
  warnings := r.warnings
  errors := r.errors
  sourceHash := r.sourceHash

/-- The row of an entry that is to be recorded at a time; it has no number yet. -/
def ofEntry (now : Instant) (e : Entry) : Row where
  id := 0
  createdAt := now.millis
  mainName := e.mainName
  success := e.success
  warnings := e.warnings
  errors := e.errors
  sourceHash := e.sourceHash

/-- The values of a row but its number, by their columns. -/
def values (r : Row) : Record :=
  [("created_at", .integer r.createdAt), ("main_name", .text r.mainName),
    ("success", .integer (if r.success then 1 else 0)), ("warnings", .integer r.warnings),
    ("errors", .integer r.errors), ("source_hash", .text r.sourceHash)]

/-- A row of which no column has been read. -/
def blank : Row := ⟨0, 0, "", false, 0, 0, ""⟩

/-- Reads a column into a row; none if the row has no such column or the value is of another
type. -/
def read? (r : Row) : String × Sql.Value → Option Row
  | ("id", .integer n) => some { r with id := n }
  | ("created_at", .integer n) => some { r with createdAt := n }
  | ("main_name", .text s) => some { r with mainName := s }
  | ("success", .integer 0) => some { r with success := false }
  | ("success", .integer 1) => some { r with success := true }
  | ("warnings", .integer n) => some { r with warnings := n }
  | ("errors", .integer n) => some { r with errors := n }
  | ("source_hash", .text s) => some { r with sourceHash := s }
  | _ => none

/-- The row that a record holds. -/
def ofRecord? (record : Record) : Option Row := record.foldlM read? blank

end Row

/-! ### Failures -/

/-- Why the history cannot answer. -/
inductive HistoryError
  /-- No path was given. -/
  | pathRequired
  /-- The path has no full path. -/
  | unresolved (reason : String)
  /-- The database cannot be opened. -/
  | opening (reason : String)
  /-- The database cannot be reached. -/
  | pinging (reason : String)
  /-- No transaction can begin. -/
  | beginning (reason : String)
  /-- A statement of the schema fails, the first one being the number 1. -/
  | migrating (number : Nat) (reason : String)
  /-- The schema cannot be kept. -/
  | committing (reason : String)
  /-- An entry cannot be added. -/
  | inserting (reason : String)
  /-- The number of an entry that was added is not known. -/
  | numbering (reason : String)
  /-- The newest entries cannot be read. -/
  | listing (reason : String)
  /-- The entry of a number cannot be read. -/
  | selecting (id : Int) (reason : String)
  /-- No entry has the number. -/
  | notFound (id : Int)
  deriving DecidableEq, Repr

/-- The wording of the reason. -/
def HistoryError.message : HistoryError → String
  | pathRequired => "history path required"
  | unresolved reason => "resolve history path: " ++ reason
  | opening reason => "open history: " ++ reason
  | pinging reason => "ping history: " ++ reason
  | beginning reason => "begin migration: " ++ reason
  | migrating number reason => "execute schema statement " ++ toString number ++ ": " ++ reason
  | committing reason => "commit migration: " ++ reason
  | inserting reason => "insert conversion: " ++ reason
  | numbering reason => "conversion id: " ++ reason
  | listing reason => "select conversions: " ++ reason
  | selecting id reason => "select conversion " ++ toString id ++ ": " ++ reason
  | notFound id => "conversion not found: " ++ toString id

/-! ### Stores -/

/-- A history that has been opened. -/
structure Store (δ : Type) where
  /-- The state of its database. -/
  state : δ
  /-- The clock that dates entries. -/
  clock : Clock

namespace Store

variable {δ : Type} (db : Sql.Database δ)

/-- The name of the table. -/
def table : String := "conversions"

/-- The name of the column that numbers the entries. -/
def key : String := "id"

/-- The columns of the table. -/
def columns : List Column :=
  [⟨key, .integer, true⟩, ⟨"created_at", .integer, false⟩, ⟨"main_name", .text, false⟩,
    ⟨"success", .integer, false⟩, ⟨"warnings", .integer, false⟩, ⟨"errors", .integer, false⟩,
    ⟨"source_hash", .text, false⟩]

/-- The statements that give the database its tables, if it does not have them. -/
def schema : List Sql.Statement :=
  [.createTable table columns, .createIndex "idx_conversions_created" table "created_at"]

/-- How long a statement waits for another program that uses the database, in milliseconds. -/
def busyTimeout : Nat := 5000

/-- The address of the database at a path. -/
def address (path : String) : Except HistoryError String :=
  let path := Text.trim path.toList
  if path.isEmpty then .error .pathRequired
  else match db.resolve (String.ofList path) with
    | .ok full =>
      .ok ("file:" ++ full ++ "?_pragma=busy_timeout(" ++ toString busyTimeout ++ ")")
    | .error reason => .error (.unresolved reason)

/-- Carries out the statements of the schema that are left, and keeps what they have done; takes it
back if one fails. -/
def migrateFrom : (number : Nat) → List Sql.Statement → δ → Except HistoryError Unit × δ
  | _, [], d =>
    match db.commit d with
    | (.ok (), d) => (.ok (), d)
    | (.error reason, d) => (.error (.committing reason), d)
  | number, s :: rest, d =>
    match db.execute d s with
    | (.ok _, d) => migrateFrom (number + 1) rest d
    | (.error reason, d) => (.error (.migrating number reason), db.rollback d)

/-- Gives the database its tables, in one transaction. -/
def migrate (d : δ) : Except HistoryError Unit × δ :=
  match db.begin d with
  | (.ok (), d) => migrateFrom db 1 schema d
  | (.error reason, d) => (.error (.beginning reason), d)

/-- Opens the database at an address and gives it its tables; closes it if it cannot be used. -/
def connect (d : δ) (address : String) : Except HistoryError Unit × δ :=
  match db.connect d address with
  | (.error reason, d) => (.error (.opening reason), d)
  | (.ok (), d) =>
    match db.ping d with
    | (.error reason, d) => (.error (.pinging reason), db.close d)
    | (.ok (), d) =>
      match migrate db d with
      | (.error e, d) => (.error e, db.close d)
      | (.ok (), d) => (.ok (), d)

/-- Opens the history at a path.  A failure comes with the state in which it leaves the database. -/
def openAt (d : δ) (path : String) (clock : Clock) : Except (HistoryError × δ) (Store δ) :=
  match address db path with
  | .error e => .error (e, d)
  | .ok address =>
    match connect db d address with
    | (.error e, d) => .error (e, d)
    | (.ok (), d) => .ok ⟨d, clock⟩

/-- Closes the history. -/
def close (s : Store δ) : Store δ := { s with state := db.close s.state }

/-- The entry of a row that was added, by the number that the database gives. -/
def recorded (row : Row) : Except String (Except String Int) → Except HistoryError Entry
  | .ok (.ok id) => .ok { row with id }.entry
  | .ok (.error reason) => .error (.numbering reason)
  | .error reason => .error (.inserting reason)

/-- Adds an entry, and gives it with its number and its time.  The clock is read even if the entry
cannot be added. -/
def record (s : Store δ) (e : Entry) : Except HistoryError Entry × Store δ :=
  let (now, clock) := s.clock.tick
  let row := Row.ofEntry now e
  let (result, state) := db.execute s.state (.insert table row.values)
  (recorded row result, ⟨state, clock⟩)

/-- The number of entries shown if none is asked for. -/
def defaultLimit : Nat := 20

/-- The greatest number of entries shown. -/
def maxLimit : Nat := 200

/-- The number of entries that a request for `limit` shows. -/
def effectiveLimit (limit : Int) : Nat :=
  if limit ≤ 0 then defaultLimit else min limit.toNat maxLimit

/-- The row that a record holds, or what is wrong with the record. -/
def row (record : Record) : Except String Row :=
  match Row.ofRecord? record with
  | some row => .ok row
  | none => .error (db.misfit record)

/-- The entries of records that were found. -/
def listed : Except String (List Record) → Except HistoryError (List Entry)
  | .error reason => .error (.listing reason)
  | .ok records =>
    match records.mapM (row db) with
    | .ok rows => .ok (rows.map Row.entry)
    | .error reason => .error (.listing reason)

/-- The newest entries, newest first. -/
def recent (s : Store δ) (limit : Int) : Except HistoryError (List Entry) × Store δ :=
  let (result, state) := db.query s.state (.newest table key (effectiveLimit limit))
  (listed db result, { s with state })

/-- The entry of a number, by the records that were found for it. -/
def selected (id : Int) : Except String (List Record) → Except HistoryError Entry
  | .error reason => .error (.selecting id reason)
  | .ok [] => .error (.notFound id)
  | .ok (record :: _) =>
    match row db record with
    | .ok row => .ok row.entry
    | .error reason => .error (.selecting id reason)

/-- The entry of the given number. -/
def get (s : Store δ) (id : Int) : Except HistoryError Entry × Store δ :=
  let (result, state) := db.query s.state (.withNumber table key id)
  (selected db id result, { s with state })

end Store

end Pseudocode
