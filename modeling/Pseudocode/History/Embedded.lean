import Pseudocode.Files
import Pseudocode.History.Database

/-!
# A database in memory

The tables of this database are kept in memory, and only its address is looked up.  Among files it
can be used in the working directory, in place of nothing or of an empty file.

* `Embedded` : its states.
* `Embedded.database` : its operations.
* `Embedded.obstacle?` : what stands in its way among files.
-/

namespace Pseudocode

open Sql (Record Table Content)

/-- A state of the database in memory. -/
structure Embedded where
  /-- Where it was opened. -/
  place : String
  /-- What it holds. -/
  content : Content

/-- What keeps a database from being used at a place. -/
inductive Obstacle
  /-- The place cannot be reached. -/
  | unreachable
  /-- The place is taken by a file of another kind. -/
  | otherFile
  deriving DecidableEq, Repr

namespace Embedded

/-- A database without tables. -/
def fresh : Embedded := ⟨"", .fresh⟩

/-- The place that an address names: what stands between its first colon and its last question
mark. -/
def placeOf (address : String) : String :=
  let named := (address.toList.dropWhile (· != ':')).drop 1
  String.ofList ((named.reverse.dropWhile (· != '?')).drop 1).reverse

/-- What keeps a database from being used at a place, if anything does.  A place is a file in the
working directory, and an empty file is as good as none. -/
def obstacle? (files : Files) (place : String) : Option Obstacle :=
  match Location.ofSteps (Text.splitOn '/' place.toList) with
  | .entry name _ =>
    if Location.maxNameLength < Text.byteLength name.toList then some .unreachable
    else match files.read name with
      | .ok content => if content.isEmpty then none else some .otherFile
      | .error _ => none
  | _ => some .unreachable

/-- Why nothing can be done with a database that is not open. -/
def closedReason : String := "sql: database is closed"

/-- Why a database cannot be reached. -/
def unreachableReason : String := "unable to open database file: out of memory (14)"

/-- Why a file cannot be used as a database. -/
def otherFileReason : String := "file is not a database (26)"

/-- Why a statement or a query finds no table. -/
def missingReason (table : String) : String := "no such table: " ++ table

/-- Changes what the database holds. -/
def update (d : Embedded) (f : Content → Content) : Embedded := { d with content := f d.content }

/-- The tables after a change, which lasts unless a transaction is going on. -/
def change (tables : String → Option Table) (c : Content) : Content :=
  { c with current := tables, durable := if c.inTransaction then c.durable else tables }

/-- The record that is added to a table for the given values, with the next number in front. -/
def numbered (t : Table) (values : Record) : Record :=
  match t.columns.find? (·.isKey) with
  | some column => (column.name, .integer (t.sequence + 1)) :: values
  | none => values

/-- Inserts a record where it belongs in records with descending numbers. -/
def insertDescending (key : String) (r : Record) : List Record → List Record
  | [] => [r]
  | s :: rest =>
    if (s.number? key).getD 0 ≤ (r.number? key).getD 0 then r :: s :: rest
    else s :: insertDescending key r rest

/-- The records of a table with descending numbers. -/
def descending (key : String) (records : List Record) : List Record :=
  records.foldr (insertDescending key) []

/-- Carries out a statement on an open database. -/
def perform (d : Embedded) : Sql.Statement → Except String (Except String Int) × Embedded
  | .createTable name columns =>
    let table := (d.content.current name).getD (.empty columns)
    (.ok (.ok 0), d.update (change (Content.replacing d.content.current name table)))
  | .createIndex _ _ _ => (.ok (.ok 0), d)
  | .insert name values =>
    match d.content.current name with
    | none => (.error (missingReason name), d)
    | some t =>
      let t' : Table := { t with
        sequence := t.sequence + 1
        records := numbered t values :: t.records }
      (.ok (.ok (t.sequence + 1)), d.update (change (Content.replacing d.content.current name t')))

/-- Answers a query to an open database. -/
def find (d : Embedded) : Sql.Query → Except String (List Record)
  | .newest name key limit =>
    match d.content.current name with
    | none => .error (missingReason name)
    | some t => .ok ((descending key t.records).take limit)
  | .withNumber name key number =>
    match d.content.current name with
    | none => .error (missingReason name)
    | some t => .ok (t.records.filter fun r => r.number? key = some number)

/-- The database in memory, where the given obstacles are. -/
def database (obstacle? : String → Option Obstacle) : Sql.Database Embedded where
  resolve := .ok
  connect d address :=
    (.ok (), ⟨placeOf address, { d.content with isOpen := true }⟩)
  ping d :=
    if !d.content.isOpen then (.error closedReason, d)
    else if obstacle? d.place = some .unreachable then (.error unreachableReason, d)
    else (.ok (), d)
  begin d :=
    if !d.content.isOpen then (.error closedReason, d)
    else (.ok (), d.update ({ · with inTransaction := true }))
  commit d := (.ok (), d.update fun c => { c with inTransaction := false, durable := c.current })
  rollback d := d.update fun c => { c with inTransaction := false, current := c.durable }
  execute d s :=
    if !d.content.isOpen then (.error closedReason, d)
    else if obstacle? d.place = some .otherFile then (.error otherFileReason, d)
    else d.perform s
  query d q := (if d.content.isOpen then d.find q else .error closedReason, d)
  misfit _ := "sql: record of another form"
  close d := d.update fun c => .closed c.durable

end Embedded

end Pseudocode
