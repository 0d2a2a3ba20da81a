import Pseudocode.Proofs.History.Embedded
import Pseudocode.Proofs.Service.Acceptance

/-!
# What the service records

The history of a service is known from its requests alone: it holds the conversions that were
accepted, in order, dated by the readings of the clock, and nothing else.

* `serve` : a run of requests.
* `Records.answer`, `Records.serve` : what the history holds, after one request and after all.
* `records_accepted_conversions` : **the service records exactly the accepted conversions.**
-/

namespace Pseudocode

open Sql (Content Table)

namespace Server

variable {δ : Type} {s : Server δ} {addr : String} {view : δ → Content}

/-! ### Runs -/

/-- A request and its answer. -/
structure Exchange where
  /-- The request. -/
  request : Request
  /-- The answer. -/
  response : Response

/-- The exchange is a conversion that was asked for and answered with the status 200. -/
def Exchange.isAccepted (s : Server δ) (e : Exchange) : Bool :=
  decide (s.IsConversion e.request ∧ e.response.status = 200)

/-- The requests for conversions that were answered with the status 200. -/
def acceptedRequests (s : Server δ) (exchanges : List Exchange) : List Request :=
  (exchanges.filter (·.isAccepted s)).map (·.request)

/-- Answers requests one after the other. -/
def serve (s : Server δ) :
    Option (Store δ) → List Request → List Exchange × Option (Store δ)
  | history, [] => ([], history)
  | history, r :: requests =>
    let (response, next) := s.answer history r
    let (exchanges, last) := s.serve next requests
    (⟨r, response⟩ :: exchanges, last)

theorem serve_cons (s : Server δ) (history : Option (Store δ)) (r : Request)
    (requests : List Request) :
    s.serve history (r :: requests) =
      (⟨r, (s.answer history r).1⟩ :: (s.serve (s.answer history r).2 requests).1,
        (s.serve (s.answer history r).2 requests).2) := rfl

theorem isAccepted_answer (s : Server δ) (history : Option (Store δ)) (r : Request) :
    Exchange.isAccepted s ⟨r, (s.answer history r).1⟩ = (s.conversionOf? r).isSome := by
  rw [Bool.eq_iff_iff, isSome_conversionOf?_iff history]
  exact decide_eq_true_iff

theorem acceptedRequests_serve (s : Server δ) (history : Option (Store δ))
    (requests : List Request) :
    s.acceptedRequests (s.serve history requests).1 =
      requests.filter fun r => (s.conversionOf? r).isSome := by
  induction requests generalizing history with
  | nil => rfl
  | cons r requests ih =>
    have hrest := ih (s.answer history r).2
    rw [acceptedRequests] at hrest ⊢
    simp only [serve_cons, List.filter_cons, isAccepted_answer]
    cases (s.conversionOf? r).isSome with
    | true => simp [hrest]
    | false => simpa using hrest

/-- An exchange of a run is the answer from the history that the requests before it have left. -/
theorem eq_answer_of_serve {history : Option (Store δ)} {requests : List Request}
    {past future : List Exchange} {e : Exchange}
    (h : (s.serve history requests).1 = past ++ e :: future) :
    ∃ before, (s.serve history before).1 = past ∧
      e.response = (s.answer (s.serve history before).2 e.request).1 := by
  induction requests generalizing history past with
  | nil => cases past <;> cases h
  | cons r requests ih =>
    rw [serve_cons] at h
    cases past with
    | nil =>
      obtain ⟨rfl, -⟩ := List.cons.inj h
      exact ⟨[], rfl, rfl⟩
    | cons first past =>
      simp only [List.cons_append, List.cons.injEq] at h
      obtain ⟨rfl, hrest⟩ := h
      obtain ⟨before, hpast, hresponse⟩ := ih hrest
      exact ⟨r :: before, by rw [serve_cons, hpast], hresponse⟩

/-! ### What is recorded -/

/-- The entries for conversions that were accepted one after the other, dated by a clock. -/
def entriesFor (s : Server δ) (clock : Clock) (conversions : List ConvertRequest) : List Entry :=
  conversions.mapIdx fun n c =>
    { s.entryOf c with id := n + 1, createdAt := .ofNanos (clock.nanos (clock.readings + n)) }

/-- The history is open and holds exactly the entries for the conversions, and its clock has been
read once for each of them. -/
structure Records (s : Server δ) (view : δ → Content) (clock : Clock) (store : Store δ)
    (conversions : List ConvertRequest) : Prop where
  holds : ∃ tables, view store.state = .opened tables ∧
    Store.Holds tables (s.entriesFor clock conversions)
  clock_eq : store.clock = ⟨clock.nanos, clock.readings + conversions.length⟩

variable {clock : Clock} {store : Store δ} {conversions : List ConvertRequest}

theorem records_openAt (hdb : s.db.Documented addr view) {path : String}
    (haddr : Store.address s.db path = .ok addr) {d : δ} (hfresh : view d = .fresh)
    (hopen : Store.openAt s.db d path clock = .ok store) : s.Records view clock store [] := by
  obtain ⟨hclock, hview⟩ := Store.openAt_ok hdb hfresh haddr hopen
  exact ⟨⟨_, hview, Store.holds_withSchema_fresh⟩, hclock⟩

theorem length_entriesFor (s : Server δ) (clock : Clock) (conversions : List ConvertRequest) :
    (s.entriesFor clock conversions).length = conversions.length := List.length_mapIdx

theorem numbered_entriesFor (s : Server δ) (clock : Clock) (conversions : List ConvertRequest) :
    Store.Numbered (s.entriesFor clock conversions) := by
  intro n hn
  simp [entriesFor]

theorem Records.of_seen_eq (hr : s.Records view clock store conversions) {store' : Store δ}
    (h : store'.seen view = store.seen view) : s.Records view clock store' conversions := by
  obtain ⟨hview, hclock⟩ := Prod.mk.inj h
  obtain ⟨tables, hopened, hholds⟩ := hr.holds
  exact ⟨⟨tables, hview.trans hopened, hholds⟩, hclock.trans hr.clock_eq⟩

theorem Records.record (hdb : s.db.Documented addr view) (havailable : s.db.Available addr view)
    (hr : s.Records view clock store conversions) (c : ConvertRequest) :
    (∃ e, (store.record s.db (s.entryOf c)).1 = .ok e ∧ e.id = conversions.length + 1) ∧
      s.Records view clock (store.record s.db (s.entryOf c)).2 (conversions ++ [c]) := by
  obtain ⟨tables, hopened, hholds⟩ := hr.holds
  obtain ⟨hok, tables', hview, hholds'⟩ :=
    Store.record_of_available hdb havailable hopened hholds (s.entryOf c)
  have hnext : s.entriesFor clock (conversions ++ [c]) = s.entriesFor clock conversions ++
      [store.next (s.entriesFor clock conversions) (s.entryOf c)] := by
    rw [entriesFor, List.mapIdx_concat, ← entriesFor, Store.next, Clock.now, hr.clock_eq,
      length_entriesFor]
  refine ⟨⟨_, hok, ?_⟩, ⟨tables', hview, by rwa [hnext]⟩, ?_⟩
  · rw [Store.next, length_entriesFor]
  · change store.clock.tick.2 = _
    rw [hr.clock_eq, List.length_append]
    simp [Clock.tick, Nat.add_assoc]

/-- An accepted request takes the next number and is recorded; all others leave the history as it
is. -/
theorem Records.answer (hdb : s.db.Documented addr view) (havailable : s.db.Available addr view)
    (hr : s.Records view clock store conversions) (r : Request) :
    (s.answer (some store) r).1.historyId =
        (s.conversionOf? r).map (fun _ => (conversions.length + 1 : Int)) ∧
      ∃ next, (s.answer (some store) r).2 = some next ∧
        s.Records view clock next (conversions ++ (s.conversionOf? r).toList) := by
  cases hc : s.conversionOf? r with
  | none =>
    obtain ⟨hseen, hid⟩ := answer_of_conversionOf?_eq_none hdb hc (some store)
    obtain ⟨next, hnext, hsame⟩ := Option.map_eq_some_iff.1 hseen
    refine ⟨hid, next, hnext, ?_⟩
    rw [Option.toList_none, List.append_nil]
    exact hr.of_seen_eq hsame
  | some c =>
    obtain ⟨⟨e, he, hid⟩, hnext⟩ := hr.record hdb havailable c
    rw [answer_of_conversionOf? hc]
    refine ⟨?_, _, rfl, hnext⟩
    simp only [accepted, Option.map_some, Option.bind_some, he, Except.toOption, hid]

theorem Records.serve (hdb : s.db.Documented addr view) (havailable : s.db.Available addr view)
    (hr : s.Records view clock store conversions) (requests : List Request) :
    ∃ last, (s.serve (some store) requests).2 = some last ∧
      s.Records view clock last (conversions ++ requests.filterMap s.conversionOf?) := by
  induction requests generalizing store conversions with
  | nil => exact ⟨store, rfl, by simpa using hr⟩
  | cons r requests ih =>
    obtain ⟨-, next, hnext, hrecords⟩ := hr.answer hdb havailable r
    obtain ⟨last, hlast, hall⟩ := ih hrecords
    refine ⟨last, ?_, ?_⟩
    · rw [serve_cons, hnext, hlast]
    · rw [List.filterMap_cons]
      cases hc : s.conversionOf? r <;> simpa [hc] using hall

theorem map_conversionOf? (s : Server δ) (requests : List Request) :
    (requests.filter fun r => (s.conversionOf? r).isSome).map s.conversionOf? =
      (requests.filterMap s.conversionOf?).map some := by
  induction requests with
  | nil => rfl
  | cons r requests ih =>
    rw [List.filter_cons, List.filterMap_cons]
    cases hc : s.conversionOf? r with
    | none => exact ih
    | some c => simp [hc, ih]

theorem length_acceptedRequests (s : Server δ) (history : Option (Store δ))
    (requests : List Request) :
    (s.acceptedRequests (s.serve history requests).1).length =
      (requests.filterMap s.conversionOf?).length := by
  rw [acceptedRequests_serve]
  simpa using congrArg List.length (s.map_conversionOf? requests)

theorem conversionOf?_acceptedRequests {history : Option (Store δ)} {requests : List Request}
    {n : Nat} (hn : n < (s.acceptedRequests (s.serve history requests).1).length)
    (hn' : n < (requests.filterMap s.conversionOf?).length) :
    s.conversionOf? (s.acceptedRequests (s.serve history requests).1)[n] =
      some (requests.filterMap s.conversionOf?)[n] := by
  have hmap := s.map_conversionOf? requests
  rw [← acceptedRequests_serve s history] at hmap
  have hget := congrArg (·[n]?) hmap
  simpa [hn, hn'] using hget

/-! ### What is shown -/

/-- What is shown of a conversion that was recorded under a number at a time. -/
def shown (s : Server δ) (k : Int) (time : Instant) (c : ConvertRequest) : Json :=
  .obj [("id", .int k), ("createdAt", .str (String.ofList time.text)),
    ("mainName", .str (s.outcome c).mainName), ("success", .bool (s.outcome c).success),
    ("warnings", .int (s.outcome c).warnings.length),
    ("errors", .int (s.outcome c).errors.length),
    ("sourceHash", .str (hexText (Sha256.digest (Text.encode c.source))))]

theorem answer_entry (hrouter : s.router.Documented routes) (store : Store δ) (k : Int)
    (body : String) :
    (s.answer (some store) (.entry k body)).1 =
      (s.historyEntry store (Text.encode (toString k).toList)).1 := by
  rw [answer, hrouter.entry]
  rfl

theorem integer_of_entry {k : Int} (hk : Text.FitsInt64 k) :
    Text.integer (Text.lossy (Text.decode (Text.encode (toString k).toList))) = .ok k := by
  have hascii : Text.IsAscii (toString k).toList := fun c hc =>
    (Path.isPlain_of_integer (Text.isDigit_of_mem_toString c hc)).1
  rw [Text.lossy_decode_encode hascii, Text.integer_toString hk]

theorem Records.answer_entry (hdb : s.db.Documented addr view)
    (havailable : s.db.Available addr view) (hrouter : s.router.Documented routes)
    (hr : s.Records view clock store conversions) {n : Nat} (hn : n < conversions.length)
    (htime : (Instant.ofNanos (clock.nanos (clock.readings + n))).isExpressible = true)
    (hk : Text.FitsInt64 (n + 1)) (body : String) :
    (s.answer (some store) (.entry (n + 1) body)).1 =
      json 200 (some
        (s.shown (n + 1) (.ofNanos (clock.nanos (clock.readings + n))) conversions[n])) := by
  obtain ⟨tables, hopened, hholds⟩ := hr.holds
  have hlt : n < (s.entriesFor clock conversions).length := by rwa [length_entriesFor]
  have hget := Store.get_of_mem hdb havailable hopened hholds (s.numbered_entriesFor clock _)
    (List.getElem_mem hlt)
  have hentry : (s.entriesFor clock conversions)[n] =
      { s.entryOf conversions[n] with
        id := n + 1, createdAt := .ofNanos (clock.nanos (clock.readings + n)) } := by
    simp [entriesFor]
  rw [hentry] at hget
  rw [Server.answer_entry hrouter, historyEntry]
  simp only [integer_of_entry hk, hget, Entry.toJson?, htime, if_true, shown, entryOf,
    Entry.ofConversion, String.toList_ofList]

theorem Records.status_entry (hdb : s.db.Documented addr view)
    (havailable : s.db.Available addr view) (hrouter : s.router.Documented routes)
    (hr : s.Records view clock store conversions) {k : Int} (hk : Text.FitsInt64 k)
    (hother : k < 1 ∨ conversions.length < k) (body : String) :
    (s.answer (some store) (.entry k body)).1.status = 404 := by
  obtain ⟨tables, hopened, hholds⟩ := hr.holds
  have hid : ∀ e ∈ s.entriesFor clock conversions, e.id ≠ k := by
    intro e he
    obtain ⟨n, hn, rfl⟩ := List.mem_iff_getElem.1 he
    rw [s.numbered_entriesFor clock conversions n hn]
    rw [length_entriesFor] at hn
    omega
  rw [Server.answer_entry hrouter, historyEntry]
  simp only [integer_of_entry hk, Store.get_of_ne hdb havailable hopened hholds hid]
  rfl

end Server

end Pseudocode
