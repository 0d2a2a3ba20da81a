import Pseudocode.History.Store

/-!
# What a database promises

The history rests on a database that is not written here.  What is assumed of it are the promises
that databases document: records are numbered one after the other, queries find what they ask for,
the newest records come first, a transaction is kept or taken back as a whole, and what is kept
outlives the connection.  A failure changes nothing.

* `Sql.Database.Documented` : the promises, whatever may fail.
* `Sql.Database.Available` : nothing fails while the database is open.
-/

namespace Pseudocode

namespace Sql

/-- The type of a value. -/
def Value.type : Value → ColumnType
  | .integer _ => .integer
  | .text _ => .text

/-- The values of a record to be added fit the columns of a table: one of the right type for each
column but the key. -/
def Fits (columns : List Column) (values : Record) : Prop :=
  values.map (fun v => (v.1, v.2.type)) =
    (columns.filter (!·.isKey)).map fun c => (c.name, c.type)

namespace Statement

/-- The statement belongs to a schema. -/
def isSchema : Statement → Bool
  | createTable _ _ | createIndex _ _ _ => true
  | insert _ _ => false

/-- The tables after a statement of a schema; a table that is there stays as it is. -/
def tablesAfter (tables : String → Option Table) : Statement → String → Option Table
  | createTable name columns =>
    Content.replacing tables name ((tables name).getD (.empty columns))
  | createIndex _ _ _ | insert _ _ => tables

/-- The table that has to be there. -/
def needed? : Statement → Option String
  | createTable _ _ => none
  | createIndex _ table _ | insert table _ => some table

end Statement

/-- The table that has to be there. -/
def Query.needed : Query → String
  | newest table _ _ | withNumber table _ _ => table

/-- A database in a transaction that began with the tables `before`. -/
def Content.within (before tables : String → Option Table) : Content := ⟨true, true, tables, before⟩

variable {δ : Type}

/-- The promises of the database at an address, where `view` shows what it holds. -/
structure Database.Documented (db : Database δ) (address : String) (view : δ → Content) : Prop where
  /-- Persistence: a database that is opened has the tables with which it was closed. -/
  connect : ∀ {d d' tables result}, view d = .closed tables → db.connect d address = (result, d') →
    view d' = if result.isOk then .opened tables else .closed tables
  /-- Persistence: closing keeps what is not in a transaction. -/
  close : ∀ d, view (db.close d) = .closed (view d).durable
  /-- Asking whether the database can be reached changes nothing. -/
  ping : ∀ d, view (db.ping d).2 = view d
  /-- Transactions: all changes are those of the transaction until it ends. -/
  begin : ∀ {d d' tables result}, view d = .opened tables → db.begin d = (result, d') →
    view d' = if result.isOk then .within tables tables else .opened tables
  /-- Transactions: a transaction is kept as a whole, or can be taken back. -/
  commit : ∀ {d d' before tables result}, view d = .within before tables →
    db.commit d = (result, d') →
    if result.isOk then view d' = .opened tables else (view d').durable = before
  /-- Transactions: a transaction that is taken back leaves nothing. -/
  rollback : ∀ {d before tables}, view d = .within before tables →
    view (db.rollback d) = .opened before
  /-- `IF NOT EXISTS`: a schema adds what is not there. -/
  create : ∀ {d d' before tables s result}, view d = .within before tables →
    s.isSchema = true → db.execute d s = (.ok result, d') →
    view d' = .within before (s.tablesAfter tables)
  /-- `AUTOINCREMENT`: a record that is added has the number after the greatest one so far. -/
  insert : ∀ {d d' tables name t key values result}, view d = .opened tables →
    tables name = some t → t.columns.find? (·.isKey) = some key → Fits t.columns values →
    db.execute d (.insert name values) = (.ok result, d') →
    result = .ok (t.sequence + 1) ∧
      ∃ records, records.Perm (((key.name, .integer (t.sequence + 1)) :: values) :: t.records) ∧
        view d' = .opened (Content.replacing tables name ⟨t.columns, t.sequence + 1, records⟩)
  /-- A statement that fails changes nothing. -/
  execute_error : ∀ {d d' s reason}, db.execute d s = (.error reason, d') → view d' = view d
  /-- Queries change nothing. -/
  query : ∀ d q, view (db.query d q).2 = view d
  /-- `ORDER BY` and `LIMIT`: the records with the greatest numbers, in descending order. -/
  newest : ∀ {d d' tables name t key limit found}, view d = .opened tables → tables name = some t →
    db.query d (.newest name key limit) = (.ok found, d') →
    ∃ sorted : List Record, sorted.Perm t.records ∧
      sorted.Pairwise (fun a b => ∀ m n, a.number? key = some m → b.number? key = some n → n ≤ m) ∧
      found = sorted.take limit
  /-- `WHERE`: the records of a number. -/
  withNumber : ∀ {d d' tables name t key number found}, view d = .opened tables →
    tables name = some t → db.query d (.withNumber name key number) = (.ok found, d') →
    found.Perm (t.records.filter fun r => r.number? key = some number)
  /-- Nothing can be done with a database that is closed. -/
  closed : ∀ {d tables}, view d = .closed tables →
    (∀ s, ∃ reason, (db.execute d s).1 = .error reason) ∧
      ∀ q, ∃ reason, (db.query d q).1 = .error reason

/-- The database at an address can always be opened and used: nothing fails. -/
structure Database.Available (db : Database δ) (address : String) (view : δ → Content) : Prop where
  connect : ∀ {d tables}, view d = .closed tables → (db.connect d address).1 = .ok ()
  ping : ∀ {d}, (view d).isOpen = true → (db.ping d).1 = .ok ()
  begin : ∀ {d tables}, view d = .opened tables → (db.begin d).1 = .ok ()
  commit : ∀ {d before tables}, view d = .within before tables → (db.commit d).1 = .ok ()
  execute : ∀ {d s}, (view d).isOpen = true →
    (∀ name, s.needed? = some name → ((view d).current name).isSome = true) →
    ∃ result, (db.execute d s).1 = .ok result
  query : ∀ {d q}, (view d).isOpen = true → ((view d).current q.needed).isSome = true →
    ∃ found, (db.query d q).1 = .ok found

end Sql

end Pseudocode
