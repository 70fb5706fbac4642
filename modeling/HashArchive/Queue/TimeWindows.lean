import HashArchive.Api.Dump
import HashArchive.Pages.History
import HashArchive.Queue.Refinement

/-!
# Windows of time

A sum of a time and a delay is compared with another time in four places: when a URL is
enqueued, when a client waits for it to be crawled, when its history page is shown, and
in the dump of a window. The sums are sums of 64-bit numbers. A stored time can be any
such number, as an import is not checked, and so can the start and the duration of a dump.

`time_windows_exact_iff` says when each comparison is that of the unbounded sums: when the
sum does not wrap around, or wraps around to a number that does not change the outcome.
-/

set_option autoImplicit false

namespace HashArchive.Queue

open Db Url Pages Api

/-! ## The checks -/

/-- One round of `queue_timedwait`: whether the latest response of the URL is recent enough.
A URL without a response is waited for as well. -/
def timedwaitCheck (time : ℕ) (url : Str) (db : Database) : Result Bool :=
  match (hxGetLatest url db).1 with
  | .ok (ltime, _) => .ok ((ltime + configCrawlDelaySeconds) % 2 ^ 64 ≥ time)
  | .error (.code .kvsNotfound) => .ok false
  | .error failure => .error failure

/-- `queue_timedwait`, with the database at each moment it is woken before it times out:
whether it was answered. -/
def queueTimedwait (time : ℕ) (url : Str) : List Database → Result Bool
  | [] => .ok false
  | db :: later => do
    if ← timedwaitCheck time url db then .ok true else queueTimedwait time url later

/-- `GET_api_dump`: the numbers of a request that are passed on to `api_dump`. -/
def getApiDump (start duration : ℕ) : Option (ℕ × ℕ) :=
  if start = 0 ∨ duration = 0 then none
  else some (min start (2 ^ 64 - 1), min duration (2 ^ 64 - 1))

/-- A sum does not wrap around, or wraps around to a number that is not less than a value. -/
def Fits (sum value : ℕ) : Prop := sum < 2 ^ 64 ∨ value ≤ sum % 2 ^ 64

instance (sum value : ℕ) : Decidable (Fits sum value) := inferInstanceAs (Decidable (_ ∨ _))

theorem wrapped_lt_iff {sum value : ℕ} (word : value < 2 ^ 64) :
    (sum % 2 ^ 64 < value ↔ sum < value) ↔ Fits sum value := by
  unfold Fits
  omega

theorem wrapped_le_iff {sum value : ℕ} (word : value < 2 ^ 64) :
    (sum % 2 ^ 64 ≤ value ↔ sum ≤ value) ↔ Fits sum (value + 1) := by
  unfold Fits
  omega

/-! ## What each check decides -/

section Latest

variable {db : Database} {url surt : Str} {ltime lid : ℕ}
  (latest : db.lastWithin (urlSurtAndTimeIDRange1 surt) = some (.urlSurtAndTimeID surt ltime lid))
include latest

/-- A URL that is not queued is enqueued when the latest response of its SURT is old enough. -/
theorem queueAddTxn_ok_iff {entry : Entry}
    (notQueued : ∀ time id, Key.queuedURLSurtAndTimeID surt time id ∉ db) :
    (queueAddTxn surt entry db).1 = .ok true ↔
      (ltime + configCrawlDelaySeconds) % 2 ^ 64 < entry.time := by
  have none : db.lastWithin (queuedURLSurtAndTimeIDRange1 surt) = none := by
    apply Store.lastWithin_eq_none_iff.mpr
    intro key held inRange
    obtain ⟨time, id, rfl⟩ := queuedURLSurtAndTimeIDRange1_iff.mp inRange
    exact notQueued time id held
  rw [queueAddTxn, Txn.lastr_bind, none]
  show ((Txn.kvsLastr (urlSurtAndTimeIDRange1 surt) >>= fun found => _) db).1 = _ ↔ _
  rw [Txn.lastr_bind, latest]
  show ((Txn.call (.ok (surt, ltime, lid)) >>= fun read => _) db).1 = _ ↔ _
  rw [Txn.bind_of_ok (Txn.call_apply _ _)]
  dsimp only
  rw [Txn.assert_bind rfl]
  by_cases old : (ltime + configCrawlDelaySeconds) % 2 ^ 64 < entry.time
  · rw [if_pos old, queueInsert_apply]
    exact iff_of_true rfl old
  · rw [if_neg old]
    exact iff_of_false (by simp) old

/-- A client waits until the latest response is recent enough. -/
theorem timedwaitCheck_eq {time : ℕ} (normalized : urlNormalizeSurt url uriMax = .ok surt) :
    timedwaitCheck time url db =
      .ok (decide ((ltime + configCrawlDelaySeconds) % 2 ^ 64 ≥ time)) := by
  have found : hxGetLatest url db = (.ok (ltime, lid), db) := by
    rw [hxGetLatest, normalized, Txn.bind_of_ok (Txn.call_apply _ _), Txn.lastr_bind, latest]
    rfl
  rw [timedwaitCheck, found]

end Latest

/-- **When the windows of time are exact.** In every reachable state, each of the four
comparisons is that of the unbounded numbers exactly when its sum fits. -/
theorem time_windows_exact_iff {strict : Bool} {workers : ℕ} {state : State workers}
    (reached : (server strict workers).Reaches Machine.anyStep state) {url surt : Str}
    (normalized : urlNormalizeSurt url uriMax = .ok surt) {ltime lid : ℕ}
    (latest : state.db.lastWithin (urlSurtAndTimeIDRange1 surt) =
      some (.urlSurtAndTimeID surt ltime lid)) :
    (∀ entry : Entry, entry.time < 2 ^ 64 →
      (∀ time id, Key.queuedURLSurtAndTimeID surt time id ∉ state.db) →
      (((queueAddTxn surt entry state.db).1 = .ok true ↔
        ltime + configCrawlDelaySeconds < entry.time) ↔
          Fits (ltime + configCrawlDelaySeconds) entry.time)) ∧
    (∀ time < 2 ^ 64,
      ((timedwaitCheck time url state.db = .ok true ↔ ltime + configCrawlDelaySeconds ≥ time) ↔
        Fits (ltime + configCrawlDelaySeconds) time)) ∧
    (∀ now < 2 ^ 64, ∀ page, (pageHistory now url state.db).1 = .ok page →
      ((page.outdated = true ↔ ltime + configCrawlDelaySeconds < now) ↔
        Fits (ltime + configCrawlDelaySeconds) now)) ∧
    ∀ start duration admittedStart admittedDuration,
      getApiDump start duration = some (admittedStart, admittedDuration) →
      ∀ res : Response, res.time < 2 ^ 64 →
        ((inWindow admittedStart admittedDuration res = false ↔
          res.time ≥ admittedStart + admittedDuration) ↔
            Fits (admittedStart + admittedDuration) (res.time + 1)) := by
  have agree := (sound_of_reaches reached).agree
  refine ⟨?_, ?_, ?_, ?_⟩
  · intro entry word notQueued
    rw [queueAddTxn_ok_iff latest notQueued]
    exact wrapped_lt_iff word
  · intro time word
    rw [timedwaitCheck_eq latest normalized, Except.ok.injEq, decide_eq_true_eq, ge_iff_le,
      ge_iff_le, ← not_lt, ← not_lt (a := ltime + _), not_iff_not]
    exact wrapped_lt_iff word
  · intro now word page written
    rw [pageHistory_of_agree agree normalized latest written, decide_eq_true_eq]
    exact wrapped_lt_iff word
  · intro start duration admittedStart admittedDuration _ res word
    rw [inWindow, decide_eq_false_iff_not, not_not]
    exact wrapped_le_iff word

/-- A response of which the time is not known, as an import sends it. -/
def untimed : Response := urlFetch (2 ^ 64 - 1) "http://a.b/".toList .empty

/-- The SURT of its URL. -/
def untimedSurt : Str := "http://(b,a,)/".toList

/-- Its time is in the index, at the end of its SURT. -/
def UntimedLatest (db : Database) : Prop :=
  db.lastWithin (urlSurtAndTimeIDRange1 untimedSurt) =
    some (.urlSurtAndTimeID untimedSurt (2 ^ 64 - 1) 0)

instance (db : Database) : Decidable (UntimedLatest db) := inferInstanceAs (Decidable (_ = _))

/-- The sample dates from the day before; a page, a client and a call at that time. -/
theorem time_windows_exact_iff_untimed : ∃ state : State 16,
    (server false 16).Reaches Machine.anyStep state ∧ UntimedLatest state.db ∧
    ((timedwaitCheck 100000 untimed.url state.db = .ok true ↔
      2 ^ 64 - 1 + configCrawlDelaySeconds ≥ 100000) ↔
        Fits (2 ^ 64 - 1 + configCrawlDelaySeconds) 100000) := by
  have computed : ((server false 16).run Machine.anyStep (server false 16).start
      [.connect 0 [untimed], .importBatch 0 false]).map
        (fun state => decide (UntimedLatest state.db)) = some true := by decide +kernel
  obtain ⟨state, reached, latest⟩ := Machine.reaches_of_run computed
  have latest := of_decide_eq_true latest
  have normalized : urlNormalizeSurt untimed.url uriMax = .ok untimedSurt := by decide +kernel
  exact ⟨state, reached, latest,
    (time_windows_exact_iff reached normalized latest).2.1 100000 (by decide)⟩

/-- **The sums wrap around.** After the import of a response without a time, a call adds its
URL to the queue again, its page is outdated, and a client that waits for it is not
answered, although the time is later than all of theirs. A dump from 1 on of the greatest
duration ends before the response. -/
theorem time_windows_wrap : ∃ state : State 16,
    (server false 16).Reaches Machine.anyStep state ∧ Present state.db untimed 0 ∧
    untimed.time + configCrawlDelaySeconds ≥ 100000 ∧
    (queueAddTxn untimedSurt ⟨100000, 1, untimed.url, []⟩ state.db).1 = .ok true ∧
    (∃ page, (pageHistory 100000 untimed.url state.db).1 = .ok page ∧ page.outdated = true) ∧
    timedwaitCheck 100000 untimed.url state.db = .ok false ∧
    getApiDump 1 (2 ^ 64 - 1) = some (1, 2 ^ 64 - 1) ∧
    Response.sample.time < 1 + (2 ^ 64 - 1) ∧ inWindow 1 (2 ^ 64 - 1) .sample = false := by
  have computed : ((server false 16).run Machine.anyStep (server false 16).start
      [.connect 0 [untimed], .importBatch 0 false]).map (fun state =>
        decide (UntimedLatest state.db) && decide (Present state.db untimed 0) &&
        decide (state.db.lastWithin (queuedURLSurtAndTimeIDRange1 untimedSurt) = none) &&
        (match (pageHistory 100000 untimed.url state.db).1 with
          | .ok page => page.outdated
          | .error _ => false)) = some true := by decide +kernel
  obtain ⟨state, reached, tested⟩ := Machine.reaches_of_run computed
  simp only [Bool.and_eq_true, decide_eq_true_eq] at tested
  obtain ⟨⟨⟨latest, present⟩, notQueued⟩, outdated⟩ := tested
  have normalized : urlNormalizeSurt untimed.url uriMax = .ok untimedSurt := by decide +kernel
  refine ⟨state, reached, present, by decide, ?_, ?_, ?_, by decide, by decide, by decide⟩
  · refine (queueAddTxn_ok_iff latest fun time id held => ?_).mpr (by decide)
    exact Store.lastWithin_eq_none_iff.mp notQueued _ held
      (queuedURLSurtAndTimeIDRange1_iff.mpr ⟨time, id, rfl⟩)
  · split at outdated
    · exact ⟨_, by assumption, outdated⟩
    · cases outdated
  · rw [timedwaitCheck_eq latest normalized]
    rfl

end HashArchive.Queue
