import Pseudocode.Proofs.History.Store
import Pseudocode.Proofs.Service.Routing

/-!
# Which requests are accepted

A request for a conversion is accepted if its body can be read and names a source that is not blank.
It is then answered with the outcome of the conversion, which is recorded if there is an open
history.  All other requests are answered from the history as it is.

* `Store.seen` : what can be seen of a history.
* `conversionOf?` : what an accepted request asks to convert.
* `answer_of_conversionOf?`, `answer_of_conversionOf?_eq_none` : what a request does, in two cases.
* `isSome_conversionOf?_iff` : **the accepted requests are the requests for conversions that are
  answered with the status 200.**
* `answer_without_history` : what the answer owes to the history.
-/

namespace Pseudocode

open Sql (Content Table)

/-- What can be seen of a history: what its database holds, and its clock. -/
def Store.seen {δ : Type} (view : δ → Content) (s : Store δ) : Content × Clock :=
  (view s.state, s.clock)

/-- What a request asks for. -/
def Destination.endpoint? : Destination → Option Endpoint
  | handler endpoint _ => some endpoint
  | refused _ _ _ => none

namespace Server

variable {δ : Type} {s : Server δ} {r : Request} {c : ConvertRequest} {addr : String}
  {view : δ → Content}

/-! ### Accepted requests -/

/-- The request asks for a conversion. -/
def IsConversion (s : Server δ) (r : Request) : Prop :=
  (s.router routes r.verb r.path).endpoint? = some .convert

instance (s : Server δ) (r : Request) : Decidable (s.IsConversion r) :=
  inferInstanceAs (Decidable (_ = _))

/-- What the request asks to convert, if it asks for a conversion, can be read and names a source
that is not blank. -/
def conversionOf? (s : Server δ) (r : Request) : Option ConvertRequest :=
  if s.IsConversion r then
    match s.decode s.maxBytes (Text.encode r.body.toList) with
    | .ok c => if (Text.trim c.source).isEmpty then none else some c
    | .error _ => none
  else none

/-- The outcome of a conversion that was asked for. -/
def outcome (s : Server δ) (c : ConvertRequest) : Conversion :=
  Pseudocode.convert (c.strict || s.strict) (String.ofList c.source)

/-- What is recorded of a conversion that was asked for. -/
def entryOf (s : Server δ) (c : ConvertRequest) : Entry :=
  .ofConversion (String.ofList c.source) (s.outcome c)

theorem conversionOf?_eq_some (h : s.conversionOf? r = some c) :
    s.IsConversion r ∧ s.decode s.maxBytes (Text.encode r.body.toList) = .ok c ∧
      (Text.trim c.source).isEmpty = false := by
  unfold conversionOf? at h
  split at h
  · rename_i hr
    split at h
    · rename_i hread
      split at h
      · cases h
      · rename_i hsource
        cases h
        exact ⟨hr, hread, Bool.eq_false_iff.2 hsource⟩
    · cases h
  · cases h

theorem verb_of_isConversion (hrouter : s.router.Documented routes) (hr : s.IsConversion r) :
    r.verb = "POST" := by
  unfold IsConversion at hr
  cases hdestination : s.router routes r.verb r.path with
  | refused status contentType body =>
    rw [hdestination] at hr
    cases hr
  | handler endpoint parameters =>
    rw [hdestination] at hr
    cases hr
    obtain ⟨route, hroute, hmethod, hendpoint⟩ := hrouter.method hdestination
    have hpost : ∀ route ∈ routes, route.endpoint = .convert → route.method = "POST" := by decide
    rw [← hmethod, hpost route hroute hendpoint]

/-! ### Answers -/

theorem answer_of_isConversion (hr : s.IsConversion r) (history : Option (Store δ)) :
    s.answer history r = s.convert history r.body := by
  unfold IsConversion at hr
  unfold answer
  cases hdestination : s.router routes r.verb r.path with
  | refused status contentType body =>
    rw [hdestination] at hr
    cases hr
  | handler endpoint parameters =>
    rw [hdestination] at hr
    cases hr
    rfl

theorem historyId_exercise (id : List UInt8) (form : Exercise → Json) :
    (s.exercise id form).historyId = none := by
  unfold exercise
  split <;> rfl

theorem historyId_historyFailure (e : HistoryError) : (historyFailure e).historyId = none := by
  unfold historyFailure
  split <;> rfl

variable {store : Store δ}

theorem recentUpTo_frame (hdb : s.db.Documented addr view) (limit : Int) :
    (s.recentUpTo store limit).2.seen view = store.seen view ∧
      (s.recentUpTo store limit).1.historyId = none := by
  refine ⟨Prod.ext (Store.recent_state hdb store limit) rfl, ?_⟩
  simp only [recentUpTo]
  split
  · rfl
  · exact historyId_historyFailure _

theorem recent_frame (hdb : s.db.Documented addr view) (query : List UInt8) :
    (s.recent store query).2.seen view = store.seen view ∧
      (s.recent store query).1.historyId = none := by
  unfold recent
  dsimp only
  split
  · exact recentUpTo_frame hdb 0
  · split
    · split
      · exact ⟨rfl, rfl⟩
      · exact recentUpTo_frame hdb _
    · exact ⟨rfl, rfl⟩

theorem historyEntry_frame (hdb : s.db.Documented addr view) (id : List UInt8) :
    (s.historyEntry store id).2.seen view = store.seen view ∧
      (s.historyEntry store id).1.historyId = none := by
  unfold historyEntry
  dsimp only
  split
  · exact ⟨rfl, rfl⟩
  · refine ⟨Prod.ext (Store.get_state hdb store _) rfl, ?_⟩
    dsimp only
    split
    · rfl
    · exact historyId_historyFailure _

theorem withHistory_frame {respond : Store δ → Response × Store δ}
    (hrespond : ∀ store, (respond store).2.seen view = store.seen view ∧
      (respond store).1.historyId = none) (history : Option (Store δ)) :
    (withHistory history respond).2.map (·.seen view) = history.map (·.seen view) ∧
      (withHistory history respond).1.historyId = none := by
  cases history with
  | none => exact ⟨rfl, rfl⟩
  | some store =>
    obtain ⟨hseen, hid⟩ := hrespond store
    exact ⟨congrArg some hseen, hid⟩

/-- Whatever is shown leaves the history as it is, and nothing is recorded. -/
theorem handle_of_ne_convert (hdb : s.db.Documented addr view) {endpoint : Endpoint}
    (hendpoint : endpoint ≠ .convert) (history : Option (Store δ)) (query : List UInt8)
    (body : String) (id : List UInt8) :
    (s.handle history query body id endpoint).2.map (·.seen view) = history.map (·.seen view) ∧
      (s.handle history query body id endpoint).1.historyId = none := by
  cases endpoint with
  | health => exact ⟨rfl, rfl⟩
  | convert => exact absurd rfl hendpoint
  | exercises => exact ⟨rfl, rfl⟩
  | exercise => exact ⟨rfl, historyId_exercise id _⟩
  | exerciseConversion => exact ⟨rfl, historyId_exercise id _⟩
  | history => exact withHistory_frame (fun _ => recent_frame hdb query) history
  | historyEntry => exact withHistory_frame (fun _ => historyEntry_frame hdb id) history

theorem answer_of_not_isConversion (hdb : s.db.Documented addr view) (hr : ¬ s.IsConversion r)
    (history : Option (Store δ)) :
    (s.answer history r).2.map (·.seen view) = history.map (·.seen view) ∧
      (s.answer history r).1.historyId = none := by
  unfold IsConversion at hr
  unfold answer
  cases hdestination : s.router routes r.verb r.path with
  | refused status contentType body => exact ⟨rfl, rfl⟩
  | handler endpoint parameters =>
    rw [hdestination] at hr
    exact handle_of_ne_convert hdb (mt (congrArg some) hr) history _ _ _

/-- The answer to an accepted request: the outcome of the conversion, with the number under which it
is recorded if there is a history that takes it. -/
def accepted (s : Server δ) (history : Option (Store δ)) (c : ConvertRequest) :
    Response × Option (Store δ) :=
  let recorded := history.map (·.record s.db (s.entryOf c))
  (⟨200, some "application/json", (recorded.bind (·.1.toOption)).map (·.id),
      (s.outcome c).toJson.compact ++ ['\n']⟩, recorded.map (·.2))

theorem answer_of_conversionOf? (h : s.conversionOf? r = some c) (history : Option (Store δ)) :
    s.answer history r = s.accepted history c := by
  obtain ⟨hr, hread, hsource⟩ := conversionOf?_eq_some h
  rw [answer_of_isConversion hr, convert, hread]
  simp only [hsource]
  cases history with
  | none => rfl
  | some store => rfl

/-- A request for a conversion that is not accepted is answered in the same way from all
histories. -/
theorem answer_of_rejected (hr : s.IsConversion r) (h : s.conversionOf? r = none) :
    ∃ response, response.status ≠ 200 ∧ response.historyId = none ∧
      ∀ history, s.answer history r = (response, history) := by
  simp only [answer_of_isConversion hr, convert]
  rw [conversionOf?, if_pos hr] at h
  split at h
  · rename_i c hread
    split at h
    · rename_i hsource
      simp only [hread, hsource, if_true]
      exact ⟨_, by decide, rfl, fun _ => rfl⟩
    · cases h
  · rename_i e hread
    cases e with
    | tooLarge limit =>
      simp only [hread]
      exact ⟨_, (by decide : 413 ≠ 200), rfl, fun _ => rfl⟩
    | invalid reason =>
      simp only [hread]
      exact ⟨_, (by decide : 400 ≠ 200), rfl, fun _ => rfl⟩

theorem answer_of_conversionOf?_eq_none (hdb : s.db.Documented addr view)
    (h : s.conversionOf? r = none) (history : Option (Store δ)) :
    (s.answer history r).2.map (·.seen view) = history.map (·.seen view) ∧
      (s.answer history r).1.historyId = none := by
  by_cases hr : s.IsConversion r
  · obtain ⟨response, -, hid, hanswer⟩ := answer_of_rejected hr h
    rw [hanswer]
    exact ⟨rfl, hid⟩
  · exact answer_of_not_isConversion hdb hr history

/-- **The accepted requests are the requests for conversions that are answered with the status
200.** -/
theorem isSome_conversionOf?_iff (history : Option (Store δ)) :
    (s.conversionOf? r).isSome = true ↔
      s.IsConversion r ∧ (s.answer history r).1.status = 200 := by
  cases h : s.conversionOf? r with
  | some c =>
    rw [answer_of_conversionOf? h]
    exact ⟨fun _ => ⟨(conversionOf?_eq_some h).1, rfl⟩, fun _ => rfl⟩
  | none =>
    refine ⟨fun hsome => (Bool.false_ne_true hsome).elim, fun ⟨hr, hstatus⟩ => ?_⟩
    obtain ⟨response, hne, -, hanswer⟩ := answer_of_rejected hr h
    rw [hanswer] at hstatus
    exact absurd hstatus hne

/-- An accepted conversion is answered alike with any history, up to the number that it is given,
and is given none if there is no history or a closed one. -/
theorem answer_without_history (hdb : s.db.Documented addr view) {history : Option (Store δ)}
    (hclosed : ∀ store, history = some store → ∃ tables, view store.state = .closed tables)
    (hr : s.IsConversion r) (history' : Option (Store δ)) :
    (s.answer history r).1 = { (s.answer history' r).1 with historyId := none } := by
  cases hc : s.conversionOf? r with
  | none =>
    obtain ⟨response, -, hid, hanswer⟩ := answer_of_rejected hr hc
    rw [hanswer, hanswer, ← hid]
  | some c =>
    rw [answer_of_conversionOf? hc, answer_of_conversionOf? hc]
    cases history with
    | none => rfl
    | some store =>
      obtain ⟨tables, hview⟩ := hclosed store rfl
      obtain ⟨⟨err, herr⟩, -⟩ := Store.record_of_closed hdb hview (s.entryOf c)
      simp only [accepted, Option.map_some, Option.bind_some, herr, Except.toOption]
      rfl

end Server

end Pseudocode
