import HashArchive.Server.Faults

/-!
# One answer to a request

A handler that sends its answer by itself returns 0, and `listener` sends an answer for a
handler that returns a status. `Settled` says that only one of the two happens. It holds of
every handler but that of the history page: `page_history` returns what `queue_add` returned
after it has sent its page, so `listener` adds a second answer to it when `queue_add` fails.

`queue_add` fails for a URL that is not queued and was crawled within the crawl delay
(`queueAddTxn_keyexist_iff`), and it is only called for a URL that seemed outdated. So the
second answer needs a crawl that ends between the two (`answeredOnce_iff`,
`CrawledMeanwhile.stored`).
-/

set_option autoImplicit false

namespace HashArchive.Server

open Api Db Hash Pages Queue Url Yajl

/-! ## Handlers that answer once -/

/-- A function that has sent one answer or returns an error. -/
def Once (outcome : Except Fault Outcome) : Prop :=
  ∀ result, outcome = .ok result →
    (result.answers.length = 1 ∧ result.rc = .ok ()) ∨
      (result.answers = [] ∧ ∃ rc, result.rc = .error rc)

/-- A handler that has sent one answer or returns a status. -/
def Settled (handled : Handled) : Prop :=
  ∀ sent rc, handled = .ok (sent, rc) → (sent.length = 1 ∧ rc = 0) ∨ (sent = [] ∧ 0 < rc)

theorem once_sent {outcome : Outcome} (single : outcome.answers.length = 1)
    (done : outcome.rc = .ok ()) : Once (.ok outcome) := by
  rintro _ ⟨⟩
  exact .inl ⟨single, done⟩

theorem once_error (rc : ReturnCode) : Once (.ok ⟨[], .error rc⟩) := by
  rintro _ ⟨⟩
  exact .inr ⟨rfl, rc, rfl⟩

theorem once_fault (fault : Fault) : Once (.error fault) := nofun

theorem Once.beforeSending {α : Type} {call : Result α} {next : α → Except Fault Outcome}
    (once : ∀ value, Once (next value)) : Once (beforeSending call next) := by
  cases call with
  | ok value => exact once value
  | error failure =>
      cases failure with
      | code rc => exact once_error (.code rc)
      | fault fault => exact once_fault fault

theorem settled_sent {answer : Answer} : Settled (.ok ([answer], 0)) := by
  rintro _ _ ⟨⟩
  exact .inl ⟨rfl, rfl⟩

theorem settled_status {status : ℕ} (positive : 0 < status) : Settled (.ok ([], status)) := by
  rintro _ _ ⟨⟩
  exact .inr ⟨rfl, positive⟩

theorem settled_fault (fault : Fault) : Settled (.error fault) := nofun

theorem settled_getWith {request : Request} {literal : Str} {handle : Str → Handled}
    (settled : ∀ text, Settled (handle text)) :
    ∀ handled ∈ getWith request literal handle, Settled handled := by
  intro handled meant
  rw [getWith] at meant
  split at meant
  · cases meant
    exact settled _
  · cases meant

theorem settled_handlePath {URI path : Str} {handled : Handled} (settled : Settled handled) :
    ∀ meant ∈ handlePath URI path handled, Settled meant := by
  intro meant same
  rw [handlePath] at same
  split at same
  · cases same
    exact settled_fault _
  · split at same
    · cases same
      exact settled
    · cases same

section Settled

variable {library : Library} (positive : ∀ rc, 0 < library.httpError rc)
include positive

theorem hxHttperr_pos (rc : ReturnCode) : 0 < hxHttperr library rc := by
  unfold hxHttperr
  split
  · decide
  · decide
  · decide
  · exact positive _

theorem Once.answered {outcome : Except Fault Outcome} (once : Once outcome) :
    Settled (answered library outcome) := by
  cases outcome with
  | error fault => exact settled_fault fault
  | ok result =>
      obtain ⟨answers, rc⟩ := result
      rcases once _ rfl with ⟨single, rfl⟩ | ⟨rfl, error, rfl⟩
      · rintro _ _ ⟨⟩
        exact .inl ⟨single, rfl⟩
      · exact settled_status (hxHttperr_pos positive error)

theorem Once.answeredOr {outcome : Except Fault Outcome} (once : Once outcome) (eparse : ErrorCode)
    (query : Str) : Settled (answeredOr library eparse query outcome) := by
  cases outcome with
  | error fault => exact settled_fault fault
  | ok result =>
      show Settled (if result.rc = .error (.code eparse) then _ else _)
      by_cases failed : result.rc = .error (.code eparse)
      · rw [if_pos failed]
        rcases once _ rfl with ⟨-, done⟩ | ⟨nothing, -⟩
        · rw [failed] at done
          cases done
        · have single : Once (.ok ⟨result.answers ++ [.parseError query], .ok ()⟩) :=
            once_sent (by rw [nothing]; rfl) rfl
          exact single.answered positive
      · rw [if_neg failed]
        exact once.answered positive

end Settled

/-! ## The functions that handlers call -/

variable {library : Library} {stack : Stack} {m : Moments} {request : Request}

theorem once_apiOutcome (body : Result Str) : Once (apiOutcome body) :=
  Once.beforeSending fun _ => once_sent rfl rfl

theorem once_apiEnqueue (url : Str) : Once (apiEnqueue stack m url) := by
  unfold apiEnqueue
  split
  · exact Once.beforeSending fun _ => once_sent rfl rfl
  · exact Once.beforeSending fun _ => once_sent rfl rfl
  · exact once_error _
  · exact once_fault _

theorem once_pageSources (hash : Str) : Once (pageSourcesOutcome stack m hash) :=
  Once.beforeSending fun _ => Once.beforeSending fun _ => Once.beforeSending fun _ =>
    Once.beforeSending fun _ => once_sent rfl rfl

/-- The page of a history is answered once when it is not outdated or the URL is enqueued. -/
theorem once_pageHistory {url : Str}
    (enqueued : ∀ page, (pageHistory m.now url m.read).1 = .ok page → page.outdated = true →
      ∀ rc, queueAdd m.now m.newId url m.enqueue ≠ .error (.code rc)) :
    Once (pageHistoryOutcome m url) := by
  unfold pageHistoryOutcome
  cases written : (pageHistory m.now url m.read).1 with
  | error failure =>
      cases failure with
      | code rc => exact once_error _
      | fault fault => exact once_fault fault
  | ok page =>
      show Once (if page.outdated then _ else _)
      by_cases outdated : page.outdated = true
      · rw [if_pos outdated]
        cases added : queueAdd m.now m.newId url m.enqueue with
        | ok done => exact once_sent rfl rfl
        | error failure =>
            cases failure with
            | code rc => exact absurd added (enqueued page written outdated rc)
            | fault fault => exact once_fault fault
      · rw [if_neg outdated]
        exact once_sent rfl rfl

section Handlers

variable (positive : ∀ rc, 0 < library.httpError rc)
include positive

theorem settled_lookup (str : Str) : Settled (lookup library stack str) := by
  unfold lookup
  split
  · exact settled_sent
  · split
    · exact settled_sent
    · exact (once_sent rfl rfl).answered positive
    · exact settled_status (hxHttperr_pos positive _)
    · exact settled_fault _
  · exact settled_status (hxHttperr_pos positive _)
  · exact settled_fault _

theorem settled_postLookup : ∀ handled ∈ postLookup library stack request, Settled handled := by
  intro handled meant
  rw [postLookup] at meant
  split at meant
  · refine settled_handlePath ?_ _ meant
    split
    · exact settled_status (hxHttperr_pos positive _)
    · exact settled_sent
    · exact settled_lookup positive _
  · cases meant

theorem settled_getStatic : ∀ handled ∈ getStatic library stack request, Settled handled := by
  intro handled meant
  rw [getStatic] at meant
  split at meant
  · cases meant
    split
    · exact settled_status (hxHttperr_pos positive _)
    · exact settled_fault _
    · split
      · exact settled_status (hxHttperr_pos positive _)
      · exact settled_fault _
      · exact settled_status (hxHttperr_pos positive _)
      · split
        · exact settled_sent
        · exact settled_sent
        · exact settled_status (hxHttperr_pos positive _)
        · show Settled (if _ then _ else _)
          split
          · exact settled_status (by decide)
          · exact settled_sent
  · cases meant

/-- **Every handler but that of the history page** has sent one answer or returns a status. -/
theorem settled_of_mem {handled : Handled}
    (member : some handled ∈ routes library stack m request ++ [getStatic library stack request])
    (other : getHistory library m request ≠ some handled) : Settled handled := by
  simp only [routes, List.cons_append, List.nil_append, List.mem_cons, List.not_mem_nil,
    or_false] at member
  rcases member with meant | meant | meant | meant | meant | meant | meant | meant | meant | meant
  · rw [getIndex] at meant
    split at meant
    · exact settled_handlePath ((once_sent rfl rfl).answered positive) _ meant.symm
    · cases meant
  · exact settled_postLookup positive _ meant.symm
  · exact absurd meant.symm other
  · exact settled_getWith (fun hash => (once_pageSources hash).answeredOr positive _ _) _ meant.symm
  · rw [getCritical] at meant
    split at meant
    · exact settled_handlePath ((once_sent rfl rfl).answered positive) _ meant.symm
    · cases meant
  · exact settled_getWith (fun url => (once_apiEnqueue url).answered positive) _ meant.symm
  · exact settled_getWith (fun _ => (once_apiOutcome _).answered positive) _ meant.symm
  · exact settled_getWith (fun _ => (once_apiOutcome _).answered positive) _ meant.symm
  · rw [getApiDumpHandled] at meant
    split at meant
    · obtain ⟨_, -, rfl⟩ := Option.map_eq_some_iff.mp meant.symm
      exact (once_sent rfl rfl).answered positive
    · cases meant
  · exact settled_getStatic positive _ meant.symm

end Handlers

/-- What is sent for a handler that has sent one answer or returns a status. -/
theorem Settled.finish {handled : Handled} (settled : Settled handled) {answers : List Answer}
    (finished : finish (some handled) = .ok answers) : answers.length = 1 := by
  cases handled with
  | error fault => cases finished
  | ok result =>
      obtain ⟨sent, rc⟩ := result
      replace finished : Except.ok (if rc > 0 then sent ++ [.status rc] else sent) = .ok answers :=
        finished
      cases finished
      rcases settled sent rc rfl with ⟨single, rfl⟩ | ⟨rfl, late⟩
      · exact single
      · rw [if_pos late]
        rfl

/-! ## Crawls between a page and its `queue_add` -/

/-- When `queue_add` fails: the URL is not queued, and was crawled within the crawl delay. -/
def Recent (now : ℕ) (surt : Str) (db : Database) : Prop :=
  (∀ time id, Key.queuedURLSurtAndTimeID surt time id ∉ db) ∧
    ∃ time id, db.lastWithin (urlSurtAndTimeIDRange1 surt) = some (.urlSurtAndTimeID surt time id) ∧
      now ≤ (time + configCrawlDelaySeconds) % 2 ^ 64

theorem queueAddTxn_keyexist_iff (surt : Str) (entry : Entry) (db : Database) :
    (queueAddTxn surt entry db).1 = .error (.code .kvsKeyexist) ↔ Recent entry.time surt db := by
  rw [queueAddTxn, Txn.lastr_bind]
  cases queued : db.lastWithin (queuedURLSurtAndTimeIDRange1 surt) with
  | some key =>
      refine iff_of_false (by rintro ⟨⟩) fun recent => ?_
      obtain ⟨⟨held, inRange⟩, -⟩ := Store.lastWithin_eq_some_iff.mp queued
      obtain ⟨time, id, rfl⟩ := queuedURLSurtAndTimeIDRange1_iff.mp inRange
      exact recent.1 time id held
  | none =>
      have notQueued : ∀ time id, Key.queuedURLSurtAndTimeID surt time id ∉ db :=
        fun time id held => Store.lastWithin_eq_none_iff.mp queued _ held
          (queuedURLSurtAndTimeIDRange1_iff.mpr ⟨time, id, rfl⟩)
      dsimp only
      rw [Txn.lastr_bind]
      cases crawled : db.lastWithin (urlSurtAndTimeIDRange1 surt) with
      | none =>
          show (queueInsert surt entry db).1 = _ ↔ _
          rw [queueInsert_apply]
          refine iff_of_false (by rintro ⟨⟩) fun recent => ?_
          obtain ⟨-, _, _, latest, -⟩ := recent
          cases crawled.symm.trans latest
      | some key =>
          obtain ⟨⟨-, inRange⟩, -⟩ := Store.lastWithin_eq_some_iff.mp crawled
          obtain ⟨time, id, rfl⟩ := urlSurtAndTimeIDRange1_iff.mp inRange
          have unpacked : Txn.call (urlSurtAndTimeIDKeyUnpack (.urlSurtAndTimeID surt time id)) db =
              (.ok (surt, time, id), db) := rfl
          simp only [Txn.bind_of_ok unpacked, Txn.assert_bind]
          by_cases due : (time + configCrawlDelaySeconds) % 2 ^ 64 < entry.time
          · rw [if_pos due, queueInsert_apply]
            refine iff_of_false (by rintro ⟨⟩) fun recent => ?_
            obtain ⟨-, _, _, latest, recent⟩ := recent
            cases crawled.symm.trans latest
            exact absurd due (Nat.not_lt.mpr recent)
          · rw [if_neg due]
            exact iff_of_true rfl ⟨notQueued, time, id, crawled, Nat.not_lt.mp due⟩

/-- When a call of `queue_add` fails for a URL that has a SURT. -/
theorem queueAdd_error_iff {now newId : ℕ} {url surt : Str} {db : Database} (started : now ≠ 0)
    (normalized : urlNormalizeSurt url uriMax = .ok surt) (rc : ErrorCode) :
    queueAdd now newId url db = .error (.code rc) ↔
      rc = .kvsKeyexist ∧ Recent now surt db := by
  have unfolded : queueAdd now newId url db =
      (queueAddTxn surt ⟨now, newId, url, []⟩ db).1 >>= fun _ => .ok () := by
    rw [queueAdd, assertThat, if_pos started, normalized]
    rfl
  have recent := queueAddTxn_keyexist_iff surt ⟨now, newId, url, []⟩ db
  rw [unfolded, ← recent]
  rcases queueAddTxn_cases surt ⟨now, newId, url, []⟩ db with ⟨after, done, -⟩ | done | done
  · rw [done]
    refine iff_of_false (by rintro ⟨⟩) fun both => ?_
    cases both.2
  · rw [done]
    refine iff_of_false (by rintro ⟨⟩) fun both => ?_
    cases both.2
  · rw [done]
    constructor
    · rintro ⟨⟩
      exact ⟨rfl, rfl⟩
    · rintro ⟨rfl, -⟩
      rfl

theorem normalized_of_pageHistory {now : ℕ} {url : Str} {db : Database} {page : HistoryPage}
    (written : (pageHistory now url db).1 = .ok page) :
    ∃ surt, urlNormalizeSurt url uriMax = .ok surt := by
  have done : pageHistory now url db = (.ok page, (pageHistory now url db).2) := by
    rw [← written]
  obtain ⟨obj, -, done⟩ := Txn.call_bind_eq_ok.mp done
  split at done
  · cases (Prod.mk.inj done).1
  · obtain ⟨responses, between, read, -⟩ := Txn.bind_eq_ok.mp done
    obtain ⟨_, -, read⟩ := Txn.call_bind_eq_ok.mp read
    obtain ⟨surt, normalized, -⟩ := Txn.call_bind_eq_ok.mp read
    exact ⟨surt, normalized⟩

/-- A URL seemed outdated when its page was read, and is not due when it is enqueued. -/
structure CrawledMeanwhile (m : Moments) (url : Str) : Prop where
  outdated : ∃ page, (pageHistory m.now url m.read).1 = .ok page ∧ page.outdated = true
  recent : ∃ surt, urlNormalizeSurt url uriMax = .ok surt ∧ Recent m.now surt m.enqueue

/-- The request is for the history page of a URL. -/
structure AsksHistory (request : Request) (url : Str) : Prop where
  admitted : ∃ host, hostCheck request.host = .ok host
  reading : reads request = true
  scanned : scanString "/history/".toList request.URI = url
  nonempty : url ≠ []

theorem getHistory_eq {url : Str} (asks : AsksHistory request url) :
    getHistory library m request =
      some (answeredOr library .urlEparse url (pageHistoryOutcome m url)) := by
  obtain ⟨-, reading, rfl, nonempty⟩ := asks
  rw [getHistory, getWith, if_pos ⟨reading, nonempty⟩]

/-- What the handler of the history page is, when it is meant. -/
theorem getHistory_eq_some {handled : Handled} (meant : getHistory library m request = some handled)
    (admitted : ∃ host, hostCheck request.host = .ok host) :
    ∃ url, AsksHistory request url ∧
      handled = answeredOr library .urlEparse url (pageHistoryOutcome m url) := by
  rw [getHistory, getWith] at meant
  split at meant
  · rename_i both
    cases meant
    exact ⟨_, ⟨admitted, both.1, rfl, both.2⟩, rfl⟩
  · cases meant

/-- A page that is written is followed by a status when the URL was crawled in the meantime. -/
theorem pageHistoryOutcome_of_crawled {url : Str} (started : m.now ≠ 0)
    (crawled : CrawledMeanwhile m url) :
    ∃ page, pageHistoryOutcome m url = .ok ⟨[.history page], .error (.code .kvsKeyexist)⟩ := by
  obtain ⟨⟨page, written, outdated⟩, surt, normalized, recent⟩ := crawled
  have added : queueAdd m.now m.newId url m.enqueue = .error (.code .kvsKeyexist) :=
    (queueAdd_error_iff started normalized .kvsKeyexist).mpr ⟨rfl, recent⟩
  refine ⟨page, ?_⟩
  rw [pageHistoryOutcome, written]
  show (if page.outdated then _ else _) = _
  rw [if_pos outdated, added]

theorem crawled_of_error {url : Str} {page : HistoryPage} {rc : ErrorCode}
    (written : (pageHistory m.now url m.read).1 = .ok page) (outdated : page.outdated = true)
    (failed : queueAdd m.now m.newId url m.enqueue = .error (.code rc)) :
    CrawledMeanwhile m url := by
  have started : m.now ≠ 0 := fun zero => by
    rw [queueAdd, zero] at failed
    cases failed
  obtain ⟨surt, normalized⟩ := normalized_of_pageHistory written
  obtain ⟨-, recent⟩ := (queueAdd_error_iff started normalized rc).mp failed
  exact ⟨⟨page, written, outdated⟩, surt, normalized, recent⟩

/-- The handler of the listener, when the host is admitted. -/
theorem listener_of_admitted (admitted : ∃ host, hostCheck request.host = .ok host) :
    listener library stack m request =
      dispatch (routes library stack m request ++ [getStatic library stack request]) := by
  obtain ⟨host, checked⟩ := admitted
  rw [listener, checked]

/-- The handler of the history page is the one that is called when it is meant. -/
theorem firstHandled_of_history {handled : Handled}
    (meant : getHistory library m request = some handled) :
    firstHandled (routes library stack m request ++ [getStatic library stack request]) =
      some handled := by
  have member : some handled ∈ routes library stack m request := by
    rw [← meant]
    simp [routes]
  have first : firstHandled (routes library stack m request) = some handled :=
    (firstHandled_eq_some_iff (agreeing_routes library stack m request) handled).mpr member
  rw [firstHandled_append, first, Option.some_or]

section Once

variable (positive : ∀ rc, 0 < library.httpError rc)
include positive

/-- A request is answered once when no URL was crawled in the meantime. -/
theorem answeredOnce_of_not_crawled {answers : List Answer}
    (done : listener library stack m request = .ok answers)
    (not : ∀ url, AsksHistory request url → ¬ CrawledMeanwhile m url) : answers.length = 1 := by
  cases checked : hostCheck request.host with
  | error refusal =>
      rw [listener, checked] at done
      cases refusal with
      | uvEacces =>
          cases done
          rfl
      | parse failure =>
          cases failure with
          | code rc =>
              cases done
              rfl
          | fault fault => cases done
  | ok host =>
      have admitted : ∃ host, hostCheck request.host = .ok host := ⟨host, checked⟩
      rw [listener_of_admitted admitted, dispatch] at done
      cases first : firstHandled (routes library stack m request ++
          [getStatic library stack request]) with
      | none =>
          rw [first] at done
          cases done
          rfl
      | some handled =>
          rw [first] at done
          refine Settled.finish ?_ done
          by_cases history : getHistory library m request = some handled
          · obtain ⟨url, asks, rfl⟩ := getHistory_eq_some history admitted
            refine (once_pageHistory fun page written outdated rc failed => ?_).answeredOr
              positive _ _
            exact not url asks (crawled_of_error written outdated failed)
          · exact settled_of_mem positive (firstHandled_mem first) history

/-- The page of a URL that was crawled in the meantime is followed by a status. -/
theorem listener_of_crawled {url : Str} (started : m.now ≠ 0) (asks : AsksHistory request url)
    (crawled : CrawledMeanwhile m url) : ∃ page, listener library stack m request =
      .ok [.history page, .status (hxHttperr library (.code .kvsKeyexist))] := by
  obtain ⟨page, written⟩ := pageHistoryOutcome_of_crawled started crawled
  refine ⟨page, ?_⟩
  rw [listener_of_admitted asks.admitted, dispatch, firstHandled_of_history (getHistory_eq asks),
    written]
  have late : hxHttperr library (.code .kvsKeyexist) > 0 := hxHttperr_pos positive _
  show Except.ok (if hxHttperr library (.code .kvsKeyexist) > 0 then _ else _) = _
  rw [if_pos late]
  rfl

end Once

/-- The empty text is no link. -/
theorem digestFits_nil : DigestFits [] where
  digits form member m answer := by
    have none : linkForms.all (fun form => (regexec form.regex []).isNone) = true := by decide
    have here := List.all_eq_true.mp none form member
    rw [answer] at here
    cases here
  multihash matched := by
    have none : (regexec multihashRegex []).isSome = false := by decide
    rw [none] at matched
    cases matched

theorem served_sample : Served Moments.sample Request.sample where
  nonempty := by decide
  started := by decide
  read := tablesAgree_empty
  after := tablesAgree_empty
  fits hash member := by
    have both : hashTexts Request.sample = [[], []] := by decide
    rw [both] at member
    rcases List.mem_pair.mp member with rfl | rfl
    · exact digestFits_nil
    · exact digestFits_nil

/-- A URL that is answered twice was crawled in between: a response of it is stored when it is
enqueued that was not stored when it was read. -/
theorem CrawledMeanwhile.stored {url : Str} (crawled : CrawledMeanwhile m url)
    (agree : TablesAgree m.read)
    (kept : ∀ surt time id, Key.urlSurtAndTimeID surt time id ∈ m.read →
      Key.urlSurtAndTimeID surt time id ∈ m.enqueue) :
    ∃ surt time id, urlNormalizeSurt url uriMax = .ok surt ∧
      Key.urlSurtAndTimeID surt time id ∈ m.enqueue ∧
        Key.urlSurtAndTimeID surt time id ∉ m.read := by
  obtain ⟨⟨page, written, outdated⟩, surt, normalized, -, time, id, latest, recent⟩ := crawled
  obtain ⟨⟨held, inRange⟩, greatest⟩ := Store.lastWithin_eq_some_iff.mp latest
  refine ⟨surt, time, id, normalized, held, fun earlier => ?_⟩
  -- The latest response of a database that lost nothing was the latest before as well.
  have same : m.read.lastWithin (urlSurtAndTimeIDRange1 surt) =
      some (.urlSurtAndTimeID surt time id) := by
    refine Store.lastWithin_eq_some_iff.mpr ⟨⟨earlier, inRange⟩, fun key member within => ?_⟩
    obtain ⟨otherTime, otherId, rfl⟩ := urlSurtAndTimeIDRange1_iff.mp within
    exact greatest _ (kept _ _ _ member) within
  rw [pageHistory_of_agree agree normalized same written, decide_eq_true_eq] at outdated
  omega

end HashArchive.Server
