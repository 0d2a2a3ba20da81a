import Mathlib.Data.List.Sort
import Pseudocode.History.Embedded
import Pseudocode.Proofs.History.Laws

/-!
# The database in memory keeps its promises

The database in memory is a database as the history wants it, whatever keeps it from being used.
Where nothing does, it never fails.

* `Embedded.descending_perm`, `Embedded.descending_pairwise` : the order of the newest records.
* `Embedded.documented` : **the database in memory keeps what databases promise.**
* `Embedded.available` : without obstacles, nothing fails.
-/

namespace Pseudocode

open Sql (Content Record Table)

namespace Embedded

/-! ### The newest records first -/

/-- The first record has no smaller number than the second. -/
def NotBelow (key : String) (a b : Record) : Prop := (b.number? key).getD 0 ≤ (a.number? key).getD 0

instance (key : String) : DecidableRel (NotBelow key) := fun _ _ => Int.decLe _ _

instance (key : String) : Std.Total (NotBelow key) := ⟨fun _ _ => Int.le_total _ _⟩

instance (key : String) : IsTrans Record (NotBelow key) :=
  ⟨fun _ _ _ hab hbc => Int.le_trans hbc hab⟩

theorem insertDescending_eq (key : String) (r : Record) (rs : List Record) :
    insertDescending key r rs = rs.orderedInsert (NotBelow key) r := by
  induction rs with
  | nil => rfl
  | cons s rs ih =>
    rw [insertDescending, List.orderedInsert_cons, ih]
    rfl

theorem descending_eq (key : String) (rs : List Record) :
    descending key rs = rs.insertionSort (NotBelow key) := by
  induction rs with
  | nil => rfl
  | cons r rs ih =>
    rw [descending, List.foldr_cons, ← descending, ih, insertDescending_eq, List.insertionSort_cons]

theorem descending_perm (key : String) (rs : List Record) : (descending key rs).Perm rs := by
  rw [descending_eq]
  exact List.perm_insertionSort _ rs

theorem descending_pairwise (key : String) (rs : List Record) :
    (descending key rs).Pairwise fun a b =>
      ∀ m n, a.number? key = some m → b.number? key = some n → n ≤ m := by
  have hsorted := List.pairwise_insertionSort (NotBelow key) rs
  rw [descending_eq]
  refine hsorted.imp fun {a b} hab m n hm hn => ?_
  rwa [NotBelow, hm, hn] at hab

/-! ### Statements and queries -/

variable {obstacle? : String → Option Obstacle} {d d' : Embedded}

theorem perform_error {s : Sql.Statement} {reason : String}
    (h : d.perform s = (.error reason, d')) : d' = d := by
  cases s with
  | createTable name columns => cases h
  | createIndex index table column => cases h
  | insert name values =>
    rw [perform] at h
    split at h <;> cases h
    rfl

theorem perform_of_execute {s : Sql.Statement} {result : Except String Int}
    (h : (database obstacle?).execute d s = (.ok result, d')) : d.perform s = (.ok result, d') := by
  simp only [database] at h
  split at h
  · cases h
  · split at h
    · cases h
    · exact h

theorem execute_error {s : Sql.Statement} {reason : String}
    (h : (database obstacle?).execute d s = (.error reason, d')) : d' = d := by
  simp only [database] at h
  split at h
  · cases h
    rfl
  · split at h
    · cases h
      rfl
    · exact perform_error h

theorem find_of_query {q : Sql.Query} {found : List Record}
    (h : (database obstacle?).query d q = (.ok found, d')) : d.find q = .ok found := by
  have hresult := congrArg Prod.fst h
  simp only [database] at hresult
  split at hresult
  · exact hresult
  · cases hresult

theorem content_create {before tables : String → Option Table}
    (h : d.content = .within before tables) {s : Sql.Statement} (hs : s.isSchema = true)
    {result : Except String Int}
    (hperform : d.perform s = (.ok result, d')) :
    d'.content = .within before (s.tablesAfter tables) := by
  cases s with
  | createTable name columns =>
    cases hperform
    simp only [update, h]
    rfl
  | createIndex index table column =>
    cases hperform
    exact h
  | insert name values => cases hs

theorem current_of_opened {tables : String → Option Table} (h : d.content = .opened tables)
    {name : String} {t : Table} (ht : tables name = some t) : d.content.current name = some t := by
  rw [h]
  exact ht

theorem content_insert {tables : String → Option Table} (h : d.content = .opened tables)
    {name : String} {t : Table} (ht : tables name = some t) {key : Sql.Column}
    (hkey : t.columns.find? (·.isKey) = some key) {values : Record} {result : Except String Int}
    (hperform : d.perform (.insert name values) = (.ok result, d')) :
    result = .ok (t.sequence + 1) ∧
      d'.content = .opened (Content.replacing tables name ⟨t.columns, t.sequence + 1,
        ((key.name, .integer (t.sequence + 1)) :: values) :: t.records⟩) := by
  simp only [perform, current_of_opened h ht, numbered, hkey] at hperform
  cases hperform
  refine ⟨rfl, ?_⟩
  simp only [update, h]
  rfl

/-! ### Promises -/

/-- **The database in memory keeps what databases promise,** whatever keeps it from being used. -/
theorem documented (obstacle? : String → Option Obstacle) (address : String) :
    (database obstacle?).Documented address content where
  connect := by
    intro d d' tables result h hconnect
    cases hconnect
    simp only [h]
    rfl
  close d := rfl
  ping d := by
    simp only [database]
    split
    · rfl
    · split <;> rfl
  begin := by
    intro d d' tables result h hbegin
    have hopen : d.content.isOpen = true := by rw [h]; rfl
    simp only [database, hopen] at hbegin
    cases hbegin
    simp only [update, h]
    rfl
  commit := by
    intro d d' before tables result h hcommit
    cases hcommit
    change (d.update _).content = _
    simp only [update, h]
    rfl
  rollback := by
    intro d before tables h
    simp only [database, update, h]
    rfl
  create h hs hexecute := content_create h hs (perform_of_execute hexecute)
  insert h ht hkey _ hexecute :=
    have ⟨hresult, hcontent⟩ := content_insert h ht hkey (perform_of_execute hexecute)
    ⟨hresult, _, .refl _, hcontent⟩
  execute_error hexecute := congrArg content (execute_error hexecute)
  query _ _ := rfl
  newest := by
    intro d d' tables name t key limit found h ht hquery
    have hfind := find_of_query hquery
    simp only [find, current_of_opened h ht] at hfind
    cases hfind
    exact ⟨_, descending_perm key t.records, descending_pairwise key t.records, rfl⟩
  withNumber := by
    intro d d' tables name t key number found h ht hquery
    have hfind := find_of_query hquery
    simp only [find, current_of_opened h ht] at hfind
    cases hfind
    exact .refl _
  closed := by
    intro d tables h
    have hclosed : d.content.isOpen = false := by rw [h]; rfl
    simp only [database, hclosed]
    exact ⟨fun _ => ⟨_, rfl⟩, fun _ => ⟨_, rfl⟩⟩

/-- The database in memory never fails where nothing keeps it from being used. -/
theorem available (address : String) : (database fun _ => none).Available address content where
  connect _ := rfl
  ping hopen := by simp [database, hopen]
  begin h := by simp [database, h, Content.opened]
  commit _ := rfl
  execute := by
    intro d s hopen hneeded
    simp only [database, hopen]
    cases s with
    | createTable name columns => exact ⟨_, rfl⟩
    | createIndex index table column => exact ⟨_, rfl⟩
    | insert name values =>
      obtain ⟨t, ht⟩ := Option.isSome_iff_exists.1 (hneeded name rfl)
      exact ⟨.ok (t.sequence + 1), by simp [perform, ht]⟩
  query := by
    intro d q hopen hneeded
    simp only [database, hopen, if_true]
    obtain ⟨t, ht⟩ := Option.isSome_iff_exists.1 hneeded
    cases q with
    | newest table key limit =>
      simp only [Sql.Query.needed] at ht
      exact ⟨_, by rw [find, ht]⟩
    | withNumber table key number =>
      simp only [Sql.Query.needed] at ht
      exact ⟨_, by rw [find, ht]⟩

end Embedded

end Pseudocode
