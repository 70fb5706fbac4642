import HashArchive.Queue.CrawlDelay
import HashArchive.Queue.Answers
import HashArchive.Server.Answers

/-!
# Answers to enqueued URLs

`api_enqueue` calls `queue_add` and waits with `queue_timedwait` until the URL was crawled, or
does not wait when `queue_add` says that it was crawled recently. Then it reads the history of
the URL again and prints the latest response.

Other clients, workers and imports run in between. `enqueue_fresh` follows a call through three
states of the server: what it prints is the latest stored response of the URL, which a worker has
crawled or a client of an import has sent, and it is not older than the crawl delay when the call
started. `released_of_answered` says that a client does not wait for a request that a worker has
answered.
-/

set_option autoImplicit false

namespace HashArchive.Server

open Api Db Hash Json Pages Queue Url Yajl

/-! ## The latest response -/

section Latest

variable {db after : Database} {url surt : Str} {time id : ℕ}

/-- A response that is indexed later on is not before the one that was the latest. -/
theorem latest_of_grows (grows : Grows db after)
    (held : Key.urlSurtAndTimeID surt time id ∈ db) :
    ∃ ltime lid, after.lastWithin (urlSurtAndTimeIDRange1 surt) =
      some (.urlSurtAndTimeID surt ltime lid) ∧ time ≤ ltime := by
  have kept := grows.urlKey held
  have inRange : urlSurtAndTimeIDRange1 surt (.urlSurtAndTimeID surt time id) :=
    urlSurtAndTimeIDRange1_iff.mpr ⟨time, id, rfl⟩
  cases latest : after.lastWithin (urlSurtAndTimeIDRange1 surt) with
  | none => exact absurd inRange (Store.lastWithin_eq_none_iff.mp latest _ kept)
  | some key =>
      obtain ⟨⟨-, within⟩, greatest⟩ := Store.lastWithin_eq_some_iff.mp latest
      obtain ⟨ltime, lid, rfl⟩ := urlSurtAndTimeIDRange1_iff.mp within
      have notLess := not_lt.mpr (greatest _ kept inRange)
      rw [Key.urlSurtAndTimeID_lt_iff] at notLess
      exact ⟨ltime, lid, rfl, by omega⟩

/-- A history of one response holds the latest response. -/
theorem hxGetHistory_one {stored : Response} (present : Present db stored id)
    (normalized : urlNormalizeSurt url uriMax = .ok surt)
    (latest : db.lastWithin (urlSurtAndTimeIDRange1 surt) =
      some (.urlSurtAndTimeID surt stored.time id)) (slot : Response) :
    ∃ res, hxGetHistory url [slot] db = (.ok [res], db) ∧ Holds res (stored, id) := by
  obtain ⟨keys, descending⟩ := Store.exists_descending_eq_cons latest
  obtain ⟨res, got, holds, -⟩ := @getResponse_of_present db (stored, id) present slot
  have unpacked : Txn.call (urlSurtAndTimeIDKeyUnpack (.urlSurtAndTimeID surt stored.time id)) db =
      (.ok (surt, stored.time, id), db) := rfl
  have rest : (pure [] : DbTxn (List Response)) db = (.ok [], db) := rfl
  have filled : historyLoop [slot] (db.descending (urlSurtAndTimeIDRange1 surt)) db =
      (.ok [res], db) := by
    simp only [descending, historyLoop, Txn.bind_of_ok unpacked, Txn.bind_of_ok got]
    rw [Txn.bind_of_ok rest, Txn.pure_apply]
  refine ⟨res, ?_, holds⟩
  rw [hxGetHistory, Txn.assert_bind (show [slot].length > 0 from Nat.succ_pos 0), normalized,
    Txn.bind_of_ok (Txn.call_apply _ _), Txn.keysr_bind, Txn.bind_of_ok filled, Txn.pure_apply]
  rfl

/-- A check of `queue_timedwait` that is passed. -/
theorem latest_of_timedwaitCheck {now : ℕ} (normalized : urlNormalizeSurt url uriMax = .ok surt)
    (passed : timedwaitCheck now url db = .ok true) :
    ∃ time id, db.lastWithin (urlSurtAndTimeIDRange1 surt) =
      some (.urlSurtAndTimeID surt time id) ∧ now ≤ (time + configCrawlDelaySeconds) % 2 ^ 64 := by
  cases latest : db.lastWithin (urlSurtAndTimeIDRange1 surt) with
  | none =>
      have notFound : hxGetLatest url db = (.error (.code .kvsNotfound), db) := by
        rw [hxGetLatest, normalized, Txn.bind_of_ok (Txn.call_apply _ _), Txn.lastr_bind, latest]
        rfl
      rw [timedwaitCheck, notFound] at passed
      cases passed
  | some key =>
      obtain ⟨⟨-, within⟩, -⟩ := Store.lastWithin_eq_some_iff.mp latest
      obtain ⟨time, id, rfl⟩ := urlSurtAndTimeIDRange1_iff.mp within
      rw [timedwaitCheck_eq latest normalized, Except.ok.injEq, decide_eq_true_eq] at passed
      exact ⟨time, id, rfl, passed⟩

end Latest

/-! ## A call of `api_enqueue` -/

/-- A call need not wait any longer. -/
inductive Ready (m : Moments) (url : Str) (checked : Database) : Prop where
  /-- `queue_add` has refused a URL that was crawled recently. -/
  | existing (same : m.enqueue = checked)
      (refused : queueAdd m.now m.newId url checked = .error (.code .kvsKeyexist))
  /-- The URL was queued, and its latest response is recent enough by now. -/
  | waited (added : queueAdd m.now m.newId url m.enqueue = .ok ())
      (passed : timedwaitCheck m.now url checked = .ok true) (woken : m.waited = true)

theorem Ready.latest {m : Moments} {url surt : Str} {checked : Database}
    (ready : Ready m url checked) (normalized : urlNormalizeSurt url uriMax = .ok surt) :
    ∃ time id, checked.lastWithin (urlSurtAndTimeIDRange1 surt) =
      some (.urlSurtAndTimeID surt time id) ∧
        m.now ≤ (time + configCrawlDelaySeconds) % 2 ^ 64 := by
  cases ready with
  | existing _ refused =>
      have started : m.now ≠ 0 := fun zero => by
        rw [queueAdd, zero] at refused
        cases refused
      exact ((queueAdd_error_iff started normalized _).mp refused).2.2
  | waited _ passed _ => exact latest_of_timedwaitCheck normalized passed

theorem Ready.apiEnqueue_eq {stack : Stack} {m : Moments} {url : Str} {checked : Database}
    (ready : Ready m url checked) : ∃ existing : Bool, (existing = true ∨ m.waited = true) ∧
      ∀ text, enqueueBody stack m existing url = .ok text →
        apiEnqueue stack m url = .ok ⟨[.json text], .ok ()⟩ := by
  cases ready with
  | existing same refused =>
      refine ⟨true, .inl rfl, fun text body => ?_⟩
      rw [apiEnqueue, same, refused]
      show beforeSending (enqueueBody stack m true url) _ = _
      rw [body]
      rfl
  | waited added _ woken =>
      refine ⟨false, .inr woken, fun text body => ?_⟩
      rw [apiEnqueue, added]
      show beforeSending (enqueueBody stack m false url) _ = _
      rw [body]
      rfl

/-- **The body for one response**, after the line breaks, is read as the value of the stored
response exactly when that is printable. -/
theorem enqueueBody_reads (stack : Stack) {m : Moments} {existing : Bool} {url : Str}
    {res stored : Response} {id : ℕ} (sent : existing = true ∨ m.waited = true)
    (read : (hxGetHistory url [m.slot] m.after).1 = .ok [res]) (holds : Holds res (stored, id)) :
    ∃ text, enqueueBody stack m existing url = .ok text ∧
      (Json.read text = some (responseJson stored) ↔ Printable stored) := by
  obtain ⟨after, run, reads⟩ := @emit_reads true false (printedJson res) (by
    rw [nesting_printedJson]
    decide)
  have spaces : Spaces (if existing then [] else List.replicate m.timeouts '\n') := by
    split
    · exact spaces_nil
    · intro c member
      rw [List.eq_of_mem_replicate member]
      decide
  have printed : printedJson res = printedJson stored := printedJson_of_holds holds
  rw [printed] at reads
  refine ⟨_, ?_, reads_response_iff fun utf8 => reads utf8 _ spaces⟩
  rw [enqueueBody, read]
  show (if existing ∨ m.waited then _ else _) = _
  rw [if_pos sent, resJson_eq, run]
  rfl

section Runs

variable {strict : Bool} {workers : ℕ}

/-- Nothing that is stored is lost in a run. -/
theorem grows_of_leads {allowed : State workers → Action workers → Prop}
    {state later : State workers} (run : (server strict workers).Leads allowed state later) :
    Grows state.db later.db :=
  @Machine.Leads.invariant _ _ _ _ (fun later => Grows state.db later.db)
    (fun _ _ _ grows _ enabled => grows.trans (step_of_eq_some enabled).grows) _ _ run (.refl _)

/-- **What a client is sent is not stale.** A call need not wait in one state of a run, and reads
the history in a later one. The body of its answer is for the latest response of the URL that is
stored then, whose time is at most the crawl delay before the time of the call; a worker has
crawled it or a client has sent it. The body is read as its value exactly when it is printable. -/
theorem enqueue_fresh {checked answering : State workers}
    (reached : (server strict workers).Reaches Machine.anyStep checked)
    (run : (server strict workers).Leads Machine.anyStep checked answering) (stack : Stack)
    {m : Moments} {url surt : Str} (normalized : urlNormalizeSurt url uriMax = .ok surt)
    (ready : Ready m url checked.db) (read : m.after = answering.db) :
    ∃ text res id, apiEnqueue stack m url = .ok ⟨[.json text], .ok ()⟩ ∧
      (Json.read text = some (responseJson res) ↔ Printable res) ∧
      m.now ≤ res.time + configCrawlDelaySeconds ∧
      answering.db.lastWithin (urlSurtAndTimeIDRange1 surt) =
        some (.urlSurtAndTimeID surt res.time id) ∧
      Present answering.db res id ∧ Origin answering.history res id := by
  have agree : TablesAgree answering.db := (sound_of_reaches (reached.trans run)).agree
  obtain ⟨time, id, before, recent⟩ := ready.latest normalized
  obtain ⟨⟨held, -⟩, -⟩ := Store.lastWithin_eq_some_iff.mp before
  obtain ⟨ltime, lid, latest, notBefore⟩ := latest_of_grows (grows_of_leads run) held
  obtain ⟨⟨stored, -⟩, -⟩ := Store.lastWithin_eq_some_iff.mp latest
  obtain ⟨res, rfl, present, origin⟩ :=
    (sourced_of_reaches (reached.trans run)).stored (agree.urlStored stored)
  obtain ⟨slot, history, holds⟩ := hxGetHistory_one present normalized latest m.slot
  obtain ⟨existing, sent, answered⟩ := @Ready.apiEnqueue_eq stack _ _ _ ready
  obtain ⟨text, body, reads⟩ := enqueueBody_reads stack sent (read ▸ congrArg Prod.fst history) holds
  refine ⟨text, res, lid, answered text body, reads, ?_, latest, present, origin⟩
  have wrapped := Nat.mod_le (time + configCrawlDelaySeconds) (2 ^ 64)
  omega

theorem printable_urlFetch_empty (time : ℕ) (early : time < 2 ^ 63) {url : Str}
    (utf8 : isUtf8 (strlcpy url uriMax) = true) : Printable (urlFetch time url .empty) where
  url := utf8
  type := rfl
  time := early
  length := .inl (Nat.two_pow_pos 63)
  digests _ := Nat.zero_le _

/-- A page is crawled at 100, and enqueued by another client at 150. -/
theorem enqueue_fresh_sample : ∃ (state : State 16) (text : Str),
    (server false 16).Reaches Machine.anyStep state ∧
    apiEnqueue (fun _ => 0) { Moments.sample with now := 150, enqueue := state.db, after := state.db }
      "http://a.b/".toList = .ok ⟨[.json text], .ok ()⟩ ∧
    Json.read text = some (responseJson (urlFetch 100 "http://a.b/".toList .empty)) := by
  have computed : ((server false 16).run Machine.anyStep (server false 16).start
      (.tick 100 :: crawlOnce 0 3 "http://a.b/".toList)).map (fun state =>
        decide (queueAdd 150 0 "http://a.b/".toList state.db = .error (.code .kvsKeyexist) ∧
          state.history = [.inserted ⟨100, 1, "http://a.b/".toList, []⟩,
            .answered ⟨100, 1, "http://a.b/".toList, []⟩ 1
              (urlFetch 100 "http://a.b/".toList .empty)])) = some true := by
    decide +kernel
  have normalized : urlNormalizeSurt "http://a.b/".toList uriMax =
      .ok "http://(b,a,)/".toList := by decide +kernel
  obtain ⟨state, reached, both⟩ := Machine.reaches_of_run computed
  obtain ⟨refused, history⟩ := of_decide_eq_true both
  have ready : Ready { Moments.sample with now := 150, enqueue := state.db, after := state.db }
      "http://a.b/".toList state.db := .existing rfl refused
  obtain ⟨text, res, id, answered, reads, -, -, -, origin⟩ :=
    enqueue_fresh reached (.refl state) (fun _ => 0) normalized ready rfl
  obtain rfl : res = urlFetch 100 "http://a.b/".toList .empty := by
    rw [Origin, history] at origin
    rcases origin with ⟨entry, member⟩ | member
    · rcases List.mem_pair.mp member with other | same
      · cases other
      · exact (Event.answered.inj same).2.2
    · rcases List.mem_pair.mp member with other | other <;> cases other
  exact ⟨state, text, reached, answered,
    reads.mpr (printable_urlFetch_empty 100 (by decide) (by decide))⟩

/-! ## Clients that wait -/

/-- A worker reads the clock after the request that it answers. -/
def AnsweredLater (state : State workers) : Prop :=
  ∀ entry newId res, Event.answered entry newId res ∈ state.history → entry.time ≤ res.time

theorem AnsweredLater.step {state next : State workers} {action : Action workers}
    (later : AnsweredLater state) (delayed : Delayed state)
    (step : Step strict state action next) : AnsweredLater next := by
  intro entry newId res member
  cases step with
  | answer fetched _ =>
      rcases List.mem_append.mp member with earlier | last
      · exact later entry newId res earlier
      · cases List.mem_singleton.mp last
        exact delayed.fetched fetched
  | insert _ _ =>
      rcases List.mem_append.mp member with earlier | last
      · exact later entry newId res earlier
      · cases List.mem_singleton.mp last
  | connect _ =>
      rcases List.mem_append.mp member with earlier | last
      · exact later entry newId res earlier
      · obtain ⟨_, _, absurd⟩ := List.mem_map.mp last
        cases absurd
  | _ => exact later entry newId res member

/-- **A request that a worker has answered is not waited for.** In a run whose clock does not run
backwards, the response is not before the request, and from then on a client that waits for the
URL, under any spelling with the same SURT, is released when it looks again. -/
theorem released_of_answered {state : State workers}
    (reached : (server strict workers).Reaches Timely state)
    (below : StoredTimesBelow state.db (2 ^ 64 - configCrawlDelaySeconds)) {entry : Entry}
    {newId : ℕ} {res : Response} (answered : Event.answered entry newId res ∈ state.history)
    {url : Str} (same : urlNormalizeSurt url uriMax = urlNormalizeSurt entry.url uriMax) :
    entry.time ≤ res.time ∧
      ∀ now ≤ res.time + configCrawlDelaySeconds, timedwaitCheck now url state.db = .ok true := by
  have both : Delayed state ∧ AnsweredLater state :=
    @invariant_of_reaches _ _ _ _ (fun state => Delayed state ∧ AnsweredLater state)
      ⟨delayed_start strict workers, fun _ _ _ member => absurd member List.not_mem_nil⟩
      (fun sound holds timely step => ⟨{
        callers := holds.1.callers_step timely.1 step
        queued := holds.1.queued_step timely.1 step
        fetched := holds.1.fetched_step sound step
        answers := holds.1.answers_step sound timely.2 step }, holds.2.step holds.1 step⟩) reached
  refine ⟨both.2 entry newId res answered, fun now recent => ?_⟩
  have agree : TablesAgree state.db := (sound_of_reaches reached).agree
  obtain ⟨sameUrl, stores⟩ := (recorded_of_reaches reached).stored answered
  obtain ⟨surt, normalized, keys⟩ := agree.urlKey stores
  rw [sameUrl, ← same] at normalized
  obtain ⟨ltime, lid, latest, notBefore⟩ := latest_of_grows (.refl state.db) ((keys surt).mpr rfl)
  obtain ⟨⟨held, -⟩, -⟩ := Store.lastWithin_eq_some_iff.mp latest
  have bound : ltime < 2 ^ 64 - configCrawlDelaySeconds :=
    below _ (agree.urlStored held) ltime rfl
  have fits : (ltime + configCrawlDelaySeconds) % 2 ^ 64 = ltime + configCrawlDelaySeconds :=
    Nat.mod_eq_of_lt (by omega)
  rw [timedwaitCheck_eq latest normalized, fits, decide_eq_true (by omega)]

end Runs

/-- A page is requested and crawled at 100; a client that waits for it in capital letters. -/
theorem released_of_answered_sample : ∃ state, (server false 16).Reaches Timely state ∧
    timedwaitCheck 150 "http://A.B/".toList state.db = .ok true := by
  have computed : ((server false 16).run Timely (server false 16).start
      (.tick 100 :: crawlOnce 0 3 "http://a.b/".toList)).map (fun state =>
        decide (StoredTimesBelow state.db (2 ^ 64 - configCrawlDelaySeconds) ∧
          Event.answered ⟨100, 1, "http://a.b/".toList, []⟩ 1
            (urlFetch 100 "http://a.b/".toList .empty) ∈ state.history)) = some true := by
    decide +kernel
  obtain ⟨state, reached, done⟩ := Machine.reaches_of_run computed
  obtain ⟨below, answered⟩ := of_decide_eq_true done
  have spelled : urlNormalizeSurt "http://A.B/".toList uriMax =
      urlNormalizeSurt "http://a.b/".toList uriMax := by decide +kernel
  exact ⟨state, reached, (released_of_answered reached below answered spelled).2 150 (by decide)⟩

end HashArchive.Server
