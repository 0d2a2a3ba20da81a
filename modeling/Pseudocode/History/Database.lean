/-!
# Databases

The history is kept in a database, which is asked to carry out statements and to answer queries.
What it does is not decided here: a database is given by its operations, each of which may fail for
reasons of its own, and by the states that they lead through.

* `Statement`, `Query` : what a database is asked.
* `Database` : the operations of a database.
* `Table`, `Content` : what a database holds.
-/

namespace Pseudocode.Sql

/-- A value in a column. -/
inductive Value
  | integer (n : Int)
  | text (s : String)
  deriving DecidableEq, Repr

/-- The types of columns. -/
inductive ColumnType
  | integer
  | text
  deriving DecidableEq, Repr

/-- A column of a table; none may be left empty. -/
structure Column where
  /-- Its name. -/
  name : String
  /-- The type of its values. -/
  type : ColumnType
  /-- It numbers the records: `PRIMARY KEY AUTOINCREMENT`. -/
  isKey : Bool
  deriving DecidableEq, Repr

/-- The values of columns, by the names of the columns. -/
abbrev Record := List (String × Value)

/-- The integer in a column of a record. -/
def Record.number? (r : Record) (column : String) : Option Int :=
  match r.lookup column with
  | some (.integer n) => some n
  | _ => none

/-- What changes a database. -/
inductive Statement
  /-- `CREATE TABLE IF NOT EXISTS` -/
  | createTable (table : String) (columns : List Column)
  /-- `CREATE INDEX IF NOT EXISTS` -/
  | createIndex (index table column : String)
  /-- `INSERT INTO table (columns) VALUES (values)` -/
  | insert (table : String) (values : Record)
  deriving DecidableEq, Repr

/-- What is asked of a database. -/
inductive Query
  /-- `SELECT * FROM table ORDER BY key DESC LIMIT limit` -/
  | newest (table key : String) (limit : Nat)
  /-- `SELECT * FROM table WHERE key = number` -/
  | withNumber (table key : String) (number : Int)
  deriving DecidableEq, Repr

/-- A database, reached through one connection.  An operation gives what it returns, or the reason
why it fails, and the state that it leaves. -/
structure Database (δ : Type) where
  /-- The full path of a path. -/
  resolve : String → Except String String
  /-- Opens the database at an address. -/
  connect : δ → String → Except String Unit × δ
  /-- Asks whether the database can be reached. -/
  ping : δ → Except String Unit × δ
  /-- Begins a transaction. -/
  begin : δ → Except String Unit × δ
  /-- Ends the transaction and keeps what it has done. -/
  commit : δ → Except String Unit × δ
  /-- Ends the transaction and takes back what it has done. -/
  rollback : δ → δ
  /-- Carries out a statement, which gives the number of the last record that was added. -/
  execute : δ → Statement → Except String (Except String Int) × δ
  /-- Answers a query. -/
  query : δ → Query → Except String (List Record) × δ
  /-- What is wrong with a record that does not fit the form in which it is wanted. -/
  misfit : Record → String
  /-- Closes the database. -/
  close : δ → δ

/-! ### What databases hold -/

/-- A table. -/
structure Table where
  /-- Its columns. -/
  columns : List Column
  /-- The greatest number that a record was ever given. -/
  sequence : Int
  /-- Its records, in no particular order. -/
  records : List Record
  deriving DecidableEq, Repr

/-- A table without records. -/
def Table.empty (columns : List Column) : Table := ⟨columns, 0, []⟩

/-- What a database holds, as it is seen through the connection. -/
structure Content where
  /-- The connection is open. -/
  isOpen : Bool
  /-- A transaction has begun. -/
  inTransaction : Bool
  /-- The tables by their names. -/
  current : String → Option Table
  /-- The tables as they are without what the transaction has done so far. -/
  durable : String → Option Table

namespace Content

/-- A database that is not open, and holds the given tables. -/
def closed (tables : String → Option Table) : Content := ⟨false, false, tables, tables⟩

/-- A database that is open and not in a transaction, and holds the given tables. -/
def opened (tables : String → Option Table) : Content := ⟨true, false, tables, tables⟩

/-- A database without tables that is not open. -/
def fresh : Content := closed fun _ => none

/-- The tables with one of them replaced. -/
def replacing (tables : String → Option Table) (name : String) (table : Table) :
    String → Option Table :=
  fun other => if other = name then some table else tables other

end Content

end Pseudocode.Sql
