import Mathlib.Data.List.Sort
import Pseudocode.Proofs.History.Laws

/-!
# The history by the promises of its database

What the operations of the history do, whatever database it is kept in.  The table of the history
holds a record for each entry, and its sequence stands at the number of entries.

* `Row.ofRecord?_record` : a row is read as it was written.
* `Store.connect_spec` : **opening the history keeps its table, or adds it.**
* `Store.Holds` : a database holds the entries.
* `Store.record_cases` : **recording adds the next entry, or fails and changes nothing.**
* `Store.get_of_mem`, `Store.get_of_ne`, `Store.recent_eq` : reading.
-/

namespace Pseudocode

open Sql (Content Record Table)

/-! ### Rows and entries -/

namespace Row

/-- A row as a record of the table. -/
def record (r : Row) : Record := (Store.key, .integer r.id) :: r.values

/-- **A row is read as it was written.** -/
theorem ofRecord?_record (r : Row) : ofRecord? r.record = some r := by
  obtain ⟨id, createdAt, mainName, success, warnings, errors, sourceHash⟩ := r
  cases success <;> rfl

theorem number?_record (r : Row) : r.record.number? Store.key = some r.id := rfl

theorem fits_values (r : Row) : Sql.Fits Store.columns r.values := rfl

end Row

/-- The row of an entry. -/
def Entry.row (e : Entry) : Row :=
  ⟨e.id, e.createdAt.millis, e.mainName, e.success, e.warnings, e.errors, e.sourceHash⟩

/-- What the next reading of the clock shows, in nanoseconds since the start of 1970. -/
def Clock.now (c : Clock) : Int := c.nanos c.readings

namespace Store

variable {δ : Type} {db : Sql.Database δ} {addr : String} {view : δ → Content} {d d' : δ}

/-! ### Opening -/

/-- The statements of the schema that are left, in a transaction. -/
theorem migrateFrom_spec (hdb : db.Documented addr view) {before tables : String → Option Table}
    (h : view d = .within before tables) {statements : List Sql.Statement}
    (hschema : ∀ s ∈ statements, s.isSchema = true) {number : Nat}
    {result : Except HistoryError Unit} (hm : migrateFrom db number statements d = (result, d')) :
    if result.isOk then
      view d' = .opened (statements.foldl (fun tables s => s.tablesAfter tables) tables)
    else (view d').durable = before := by
  induction statements generalizing d tables number with
  | nil =>
    rw [migrateFrom] at hm
    split at hm <;> (rename_i hcommit; cases hm; exact hdb.commit h hcommit)
  | cons s rest ih =>
    obtain ⟨hs, hrest⟩ := List.forall_mem_cons.1 hschema
    rw [migrateFrom] at hm
    split at hm
    · rename_i hexecute
      exact ih (hdb.create h hs hexecute) hrest hm
    · rename_i hexecute
      cases hm
      have hview := (hdb.execute_error hexecute).trans h
      change (view (db.rollback _)).durable = before
      rw [hdb.rollback hview]
      rfl

/-- The tables of a database that has been given the schema. -/
def withSchema (tables : String → Option Table) : String → Option Table :=
  Content.replacing tables table ((tables table).getD (.empty columns))

theorem migrate_spec (hdb : db.Documented addr view) {tables : String → Option Table}
    (h : view d = .opened tables) {result : Except HistoryError Unit}
    (hm : migrate db d = (result, d')) :
    if result.isOk then view d' = .opened (withSchema tables)
    else (view d').durable = tables := by
  unfold migrate at hm
  split at hm
  · rename_i hbegin
    exact migrateFrom_spec hdb (hdb.begin h hbegin) (by decide) hm
  · rename_i hbegin
    cases hm
    have hview := hdb.begin h hbegin
    change (view _).durable = tables
    rw [hview]
    rfl

/-- **Opening the history keeps its table, or adds it;** a failure leaves the database closed as it
was. -/
theorem connect_spec (hdb : db.Documented addr view) {tables : String → Option Table}
    (h : view d = .closed tables) {result : Except HistoryError Unit}
    (hc : connect db d addr = (result, d')) :
    view d' = if result.isOk then .opened (withSchema tables) else .closed tables := by
  unfold connect at hc
  split at hc
  · rename_i hconnect
    cases hc
    exact hdb.connect h hconnect
  · rename_i d₁ hconnect
    have hopened : view d₁ = .opened tables := hdb.connect h hconnect
    have hpinged {reply : Except String Unit} {d₂ : δ} (hping : db.ping d₁ = (reply, d₂)) :
        view d₂ = .opened tables := by
      have hview := hdb.ping d₁
      rwa [hping, hopened] at hview
    split at hc
    · rename_i d₂ hping
      cases hc
      change view (db.close d₂) = .closed tables
      rw [hdb.close, hpinged hping]
      rfl
    · rename_i d₂ hping
      split at hc
      · rename_i e d₃ hmigrate
        have hkept : (view d₃).durable = tables := migrate_spec hdb (hpinged hping) hmigrate
        cases hc
        change view (db.close d₃) = .closed tables
        rw [hdb.close, hkept]
      · rename_i d₃ hmigrate
        cases hc
        exact migrate_spec hdb (hpinged hping) hmigrate

theorem openAt_ok (hdb : db.Documented addr view) {tables : String → Option Table}
    (h : view d = .closed tables) {path : String} (haddr : address db path = .ok addr)
    {clock : Clock} {s : Store δ} (hopen : openAt db d path clock = .ok s) :
    s.clock = clock ∧ view s.state = .opened (withSchema tables) := by
  rw [openAt, haddr] at hopen
  dsimp only at hopen
  split at hopen
  · cases hopen
  · rename_i hconnect
    cases hopen
    exact ⟨rfl, connect_spec hdb h hconnect⟩

theorem openAt_error (hdb : db.Documented addr view) {tables : String → Option Table}
    (h : view d = .closed tables) {path : String} (haddr : address db path = .ok addr)
    {clock : Clock} {e : HistoryError} (hopen : openAt db d path clock = .error (e, d')) :
    view d' = .closed tables := by
  rw [openAt, haddr] at hopen
  dsimp only at hopen
  split at hopen
  · rename_i hconnect
    cases hopen
    exact connect_spec hdb h hconnect
  · cases hopen

/-- The statements of a schema find the tables that they need. -/
def Runnable (tables : String → Option Table) : List Sql.Statement → Prop
  | [] => True
  | s :: rest =>
    (∀ name, s.needed? = some name → (tables name).isSome = true) ∧
      Runnable (s.tablesAfter tables) rest

theorem runnable_schema (tables : String → Option Table) : Runnable tables schema := by
  refine ⟨nofun, ?_, trivial⟩
  rintro name ⟨⟩
  simp [Sql.Statement.tablesAfter, Content.replacing]

theorem migrateFrom_of_available (hdb : db.Documented addr view)
    (havailable : db.Available addr view) {before tables : String → Option Table}
    (h : view d = .within before tables) {statements : List Sql.Statement}
    (hschema : ∀ s ∈ statements, s.isSchema = true) (hrunnable : Runnable tables statements)
    (number : Nat) : (migrateFrom db number statements d).1 = .ok () := by
  induction statements generalizing d tables number with
  | nil =>
    have hcommit : db.commit d = (.ok (), (db.commit d).2) := Prod.ext (havailable.commit h) rfl
    rw [migrateFrom, hcommit]
  | cons s rest ih =>
    obtain ⟨hs, hrest⟩ := List.forall_mem_cons.1 hschema
    obtain ⟨hneeded, hrunnable⟩ := hrunnable
    obtain ⟨result, hresult⟩ := havailable.execute (d := d) (s := s) (by rw [h]; rfl) (by rwa [h])
    have hexecute : db.execute d s = (.ok result, (db.execute d s).2) := Prod.ext hresult rfl
    rw [migrateFrom, hexecute]
    exact ih (hdb.create h hs hexecute) hrest hrunnable _

theorem migrate_of_available (hdb : db.Documented addr view) (havailable : db.Available addr view)
    {tables : String → Option Table} (h : view d = .opened tables) : (migrate db d).1 = .ok () := by
  have hbegin : db.begin d = (.ok (), (db.begin d).2) := Prod.ext (havailable.begin h) rfl
  rw [migrate, hbegin]
  exact migrateFrom_of_available hdb havailable (hdb.begin h hbegin) (by decide)
    (runnable_schema tables) 1

theorem exists_openAt (hdb : db.Documented addr view) (havailable : db.Available addr view)
    {tables : String → Option Table} (h : view d = .closed tables) {path : String}
    (haddr : address db path = .ok addr) (clock : Clock) :
    ∃ s, openAt db d path clock = .ok s := by
  have hconnect : db.connect d addr = (.ok (), (db.connect d addr).2) :=
    Prod.ext (havailable.connect h) rfl
  generalize (db.connect d addr).2 = d₁ at hconnect
  have hopened : view d₁ = .opened tables := hdb.connect h hconnect
  have hping : db.ping d₁ = (.ok (), (db.ping d₁).2) :=
    Prod.ext (havailable.ping (by rw [hopened]; rfl)) rfl
  have hpinged : view (db.ping d₁).2 = .opened tables := (hdb.ping d₁).trans hopened
  generalize (db.ping d₁).2 = d₂ at hping hpinged
  have hmigrate : migrate db d₂ = (.ok (), (migrate db d₂).2) :=
    Prod.ext (migrate_of_available hdb havailable hpinged) rfl
  rw [openAt, haddr]
  simp only [connect, hconnect, hping]
  rw [hmigrate]
  exact ⟨_, rfl⟩

/-! ### Entries in the table -/

/-- The table of the history has a record for each of the entries, and no other. -/
def Holds (tables : String → Option Table) (entries : List Entry) : Prop :=
  ∃ records, tables table = some ⟨columns, entries.length, records⟩ ∧
    records.Perm (entries.map (·.row.record))

theorem holds_withSchema_fresh : Holds (withSchema fun _ => none) [] := ⟨[], rfl, .refl _⟩

theorem Holds.withSchema {tables : String → Option Table} {entries : List Entry}
    (h : Holds tables entries) : Holds (withSchema tables) entries := by
  obtain ⟨records, htable, hperm⟩ := h
  refine ⟨records, ?_, hperm⟩
  simp only [Store.withSchema, Content.replacing, if_true, htable, Option.getD_some]

variable {tables : String → Option Table} {entries : List Entry} {s : Store δ}

/-- The entry that is added for an entry, behind the given ones. -/
def next (s : Store δ) (entries : List Entry) (e : Entry) : Entry :=
  { e with id := entries.length + 1, createdAt := .ofNanos s.clock.now }

/-- The statement that adds an entry. -/
def insertion (s : Store δ) (e : Entry) : Sql.Statement :=
  .insert table (Row.ofEntry s.clock.tick.1 e).values

theorem record_eq (db : Sql.Database δ) (s : Store δ) (e : Entry) :
    s.record db e = (recorded (Row.ofEntry s.clock.tick.1 e) (db.execute s.state (s.insertion e)).1,
      ⟨(db.execute s.state (s.insertion e)).2, s.clock.tick.2⟩) := rfl

/-- **Recording adds the next entry, or fails and changes nothing.** -/
theorem record_cases (hdb : db.Documented addr view) (h : view s.state = .opened tables)
    (hholds : Holds tables entries) (e : Entry) :
    ((∃ err, (s.record db e).1 = .error err) ∧
        view (s.record db e).2.state = .opened tables) ∨
      (s.record db e).1 = .ok (s.next entries e) ∧
        ∃ tables', view (s.record db e).2.state = .opened tables' ∧
          Holds tables' (entries ++ [s.next entries e]) := by
  obtain ⟨records, htable, hperm⟩ := hholds
  rw [record_eq]
  rcases hexecute : db.execute s.state (s.insertion e) with ⟨result, state⟩
  cases result with
  | error reason => exact .inl ⟨⟨_, rfl⟩, (hdb.execute_error hexecute).trans h⟩
  | ok result =>
    obtain ⟨rfl, records', hperm', hview⟩ :=
      hdb.insert h htable rfl (Row.fits_values _) hexecute
    refine .inr ⟨rfl, _, hview, records', ?_, ?_⟩
    · simp [Content.replacing]
    · calc records'.Perm (_ :: records) := hperm'
        List.Perm _ ((s.next entries e).row.record :: entries.map (·.row.record)) := hperm.cons _
        List.Perm _ ((entries ++ [s.next entries e]).map (·.row.record)) := by
          rw [List.map_append]
          exact (List.perm_append_singleton _ _).symm

theorem record_of_available (hdb : db.Documented addr view) (havailable : db.Available addr view)
    (h : view s.state = .opened tables) (hholds : Holds tables entries) (e : Entry) :
    (s.record db e).1 = .ok (s.next entries e) ∧
      ∃ tables', view (s.record db e).2.state = .opened tables' ∧
        Holds tables' (entries ++ [s.next entries e]) := by
  obtain ⟨⟨err, herr⟩, -⟩ | hadded := record_cases hdb h hholds e
  · obtain ⟨records, htable, -⟩ := hholds
    have hneeded : ∀ name, (s.insertion e).needed? = some name →
        ((view s.state).current name).isSome = true := by
      rintro name ⟨⟩
      rw [h]
      exact congrArg Option.isSome htable
    obtain ⟨result, hresult⟩ := havailable.execute (by rw [h]; rfl) hneeded
    obtain ⟨rfl, -⟩ := hdb.insert h htable rfl (Row.fits_values _) (Prod.ext hresult rfl)
    rw [record_eq, hresult] at herr
    cases herr
  · exact hadded

theorem record_of_closed (hdb : db.Documented addr view) (h : view s.state = .closed tables)
    (e : Entry) :
    (∃ err, (s.record db e).1 = .error err) ∧ view (s.record db e).2.state = .closed tables := by
  rw [record_eq]
  rcases hexecute : db.execute s.state (s.insertion e) with ⟨result, state⟩
  obtain ⟨reason, hreason⟩ := (hdb.closed h).1 (s.insertion e)
  rw [hexecute] at hreason
  obtain rfl : result = .error reason := hreason
  exact ⟨⟨_, rfl⟩, (hdb.execute_error hexecute).trans h⟩

/-! ### Numbered entries -/

/-- The entries of the list have the numbers 1, 2 and so on. -/
def Numbered (entries : List Entry) : Prop :=
  ∀ n (hn : n < entries.length), entries[n].id = n + 1

variable {e : Entry}

theorem Numbered.nil : Numbered [] := fun _ hn => absurd hn (Nat.not_lt_zero _)

theorem Numbered.concat (h : Numbered entries) (he : e.id = entries.length + 1) :
    Numbered (entries ++ [e]) := by
  intro n hn
  rw [List.getElem_append]
  split
  · rename_i hlt
    exact h n hlt
  · rename_i hge
    have hlast : n = entries.length := by
      rw [List.length_append, List.length_singleton] at hn
      omega
    subst hlast
    simp [he]

theorem Numbered.pairwise (h : Numbered entries) : entries.Pairwise fun a b => a.id < b.id := by
  refine List.pairwise_iff_getElem.2 fun i j hi hj hij => ?_
  rw [h i hi, h j hj]
  omega

theorem Numbered.eq_of_id_eq (h : Numbered entries) {e' : Entry} (he : e ∈ entries)
    (he' : e' ∈ entries) (hid : e.id = e'.id) : e = e' := by
  obtain ⟨m, hm, rfl⟩ := List.mem_iff_getElem.1 he
  obtain ⟨n, hn, rfl⟩ := List.mem_iff_getElem.1 he'
  rw [h m hm, h n hn] at hid
  obtain rfl : m = n := by omega
  rfl

/-! ### Reading -/

theorem row_record (db : Sql.Database δ) (e : Entry) : row db e.row.record = .ok e.row := by
  rw [row, Row.ofRecord?_record]

theorem get_state (hdb : db.Documented addr view) (s : Store δ) (id : Int) :
    view (s.get db id).2.state = view s.state :=
  hdb.query _ _

theorem recent_state (hdb : db.Documented addr view) (s : Store δ) (limit : Int) :
    view (s.recent db limit).2.state = view s.state :=
  hdb.query _ _

theorem exists_query_withNumber (hdb : db.Documented addr view)
    (havailable : db.Available addr view) (h : view s.state = .opened tables)
    (hholds : Holds tables entries) (id : Int) :
    ∃ found, (db.query s.state (.withNumber table key id)).1 = .ok found ∧
      ∀ r, r ∈ found ↔ ∃ e ∈ entries, e.id = id ∧ e.row.record = r := by
  obtain ⟨records, htable, hperm⟩ := hholds
  have hneeded : ((view s.state).current table).isSome = true := by
    rw [h]
    exact congrArg Option.isSome htable
  obtain ⟨found, hfound⟩ :=
    havailable.query (q := .withNumber table key id) (by rw [h]; rfl) hneeded
  refine ⟨found, hfound, fun r => ?_⟩
  have hmem := (hdb.withNumber h htable (Prod.ext hfound rfl)).mem_iff (a := r)
  rw [hmem, List.mem_filter, hperm.mem_iff, List.mem_map]
  constructor
  · rintro ⟨⟨e, he, rfl⟩, hid⟩
    rw [Row.number?_record] at hid
    exact ⟨e, he, Option.some.inj (of_decide_eq_true hid), rfl⟩
  · rintro ⟨e, he, rfl, rfl⟩
    exact ⟨⟨e, he, rfl⟩, decide_eq_true (Row.number?_record _)⟩

theorem get_of_mem (hdb : db.Documented addr view) (havailable : db.Available addr view)
    (h : view s.state = .opened tables) (hholds : Holds tables entries)
    (hnumbered : Numbered entries) (he : e ∈ entries) : (s.get db e.id).1 = .ok e := by
  obtain ⟨found, hfound, hmem⟩ := exists_query_withNumber hdb havailable h hholds e.id
  change selected db _ (db.query s.state _).1 = _
  rw [hfound]
  cases found with
  | nil => exact absurd ((hmem _).2 ⟨e, he, rfl, rfl⟩) List.not_mem_nil
  | cons r rest =>
    obtain ⟨e', he', hid, rfl⟩ := (hmem r).1 List.mem_cons_self
    obtain rfl := hnumbered.eq_of_id_eq he' he hid
    rw [selected, row_record]
    rfl

theorem get_of_ne (hdb : db.Documented addr view) (havailable : db.Available addr view)
    (h : view s.state = .opened tables) (hholds : Holds tables entries) {id : Int}
    (hid : ∀ e ∈ entries, e.id ≠ id) : (s.get db id).1 = .error (.notFound id) := by
  obtain ⟨found, hfound, hmem⟩ := exists_query_withNumber hdb havailable h hholds id
  change selected db _ (db.query s.state _).1 = _
  rw [hfound]
  cases found with
  | nil => rfl
  | cons r rest =>
    obtain ⟨e, he, heq, -⟩ := (hmem r).1 List.mem_cons_self
    exact absurd heq (hid e he)

/-- Records in descending order are those of the entries, newest first. -/
theorem eq_map_reverse_of_perm (hnumbered : Numbered entries) {sorted : List Record}
    (hperm : sorted.Perm (entries.map (·.row.record)))
    (hsorted : sorted.Pairwise fun a b =>
      ∀ m n, a.number? key = some m → b.number? key = some n → n ≤ m) :
    sorted = entries.reverse.map (·.row.record) := by
  have hreverse : (entries.reverse.map (·.row.record)).Pairwise fun a b =>
      ∀ m n, a.number? key = some m → b.number? key = some n → n ≤ m := by
    rw [List.pairwise_map, List.pairwise_reverse]
    refine hnumbered.pairwise.imp fun {a b} hlt m n hm hn => ?_
    rw [Row.number?_record] at hm hn
    cases hm
    cases hn
    exact Int.le_of_lt hlt
  refine List.Perm.eq_of_pairwise (fun a b ha hb hab hba => ?_) hsorted hreverse
    (hperm.trans ((List.reverse_perm entries).symm.map _))
  obtain ⟨e, he, rfl⟩ := List.mem_map.1 (hperm.mem_iff.1 ha)
  obtain ⟨e', he', rfl⟩ := List.mem_map.1 hb
  have hid : e.id = e'.id :=
    Int.le_antisymm (hba _ _ (Row.number?_record _) (Row.number?_record _))
      (hab _ _ (Row.number?_record _) (Row.number?_record _))
  rw [hnumbered.eq_of_id_eq he (List.mem_reverse.1 he') hid]

theorem listed_map (db : Sql.Database δ) (es : List Entry) :
    listed db (.ok (es.map (·.row.record))) = .ok es := by
  have hrows : (es.map (·.row.record)).mapM (row db) = .ok (es.map Entry.row) := by
    have hrow : (row db ∘ fun e : Entry => e.row.record) = fun e => pure e.row :=
      funext (row_record db)
    rw [List.mapM_map, hrow]
    exact List.mapM_pure
  have hentries : (es.map Entry.row).map Row.entry = es := by
    rw [List.map_map]
    exact List.map_id es
  rw [listed, hrows]
  exact congrArg Except.ok hentries

/-- The newest entries are a front of the entries read from their end. -/
theorem recent_eq (hdb : db.Documented addr view) (havailable : db.Available addr view)
    (h : view s.state = .opened tables) (hholds : Holds tables entries)
    (hnumbered : Numbered entries) (limit : Int) :
    (s.recent db limit).1 = .ok (entries.reverse.take (effectiveLimit limit)) := by
  obtain ⟨records, htable, hperm⟩ := hholds
  have hneeded : ((view s.state).current table).isSome = true := by
    rw [h]
    exact congrArg Option.isSome htable
  obtain ⟨found, hfound⟩ :=
    havailable.query (q := .newest table key (effectiveLimit limit)) (by rw [h]; rfl) hneeded
  obtain ⟨sorted, hsorted, hpairwise, rfl⟩ := hdb.newest h htable (Prod.ext hfound rfl)
  change listed db (db.query s.state _).1 = _
  rw [hfound, eq_map_reverse_of_perm hnumbered (hsorted.trans hperm) hpairwise, ← List.map_take,
    listed_map]

theorem effectiveLimit_eq (limit : Int) :
    (effectiveLimit limit : Int) = if limit ≤ 0 then 20 else min limit 200 := by
  unfold effectiveLimit defaultLimit maxLimit
  split <;> omega

end Store

end Pseudocode
