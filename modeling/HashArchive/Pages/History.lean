import HashArchive.Pages.Sources
import HashArchive.Queue.Operations

/-!
# The history page

`page_history` shows the responses of a URL and calls the page outdated when the first
of them, which is the latest, is older than the crawl delay; then it enqueues the URL as
well. `pageHistory_of_agree` says what the page of a URL is whose latest response is known.
-/

set_option autoImplicit false

namespace HashArchive.Pages

open Url Db Queue

/-! ## The page -/

/-- `CONFIG_HISTORY_MAX`. -/
def configHistoryMax : ℕ := 30

/-- What `page_history` writes: whether the page is outdated, and the entries. -/
structure HistoryPage where
  outdated : Bool
  entries : List Response
deriving DecidableEq

/-- The check of `page_history` on the responses it has read. -/
def historyOutdated (now : ℕ) : List Response → Bool
  | [] => true
  | first :: _ => (first.time + configCrawlDelaySeconds) % 2 ^ 64 < now

/-- `page_history`, at a time, up to the call of `queue_add` for an outdated page. -/
def pageHistory (now : ℕ) (url : Str) : DbTxn HistoryPage := do
  let obj ← Txn.call (urlParse url)
  if strlower obj.scheme ≠ "http".toList ∧ strlower obj.scheme ≠ "https".toList then
    Txn.call (.error (.code .urlEparse))
  else
    let responses ← hxGetHistory url (List.replicate configHistoryMax Response.blank)
    pure ⟨historyOutdated now responses, shown responses⟩

/-! ## The first response -/

section Agree

variable {db : Database} (agree : TablesAgree db) {url surt : Str} {ltime lid : ℕ}
  (normalized : urlNormalizeSurt url uriMax = .ok surt)
  (latest : db.lastWithin (urlSurtAndTimeIDRange1 surt) = some (.urlSurtAndTimeID surt ltime lid))
include agree normalized latest

/-- **The first response of a history is the latest.** -/
theorem hxGetHistory_first {out : List Response} (room : 0 < out.length) :
    ∃ first rest, hxGetHistory url out db = (.ok (first :: rest), db) ∧ first.time = ltime := by
  obtain ⟨keys, descending⟩ := Store.exists_descending_eq_cons latest
  have indexed : ∀ key ∈ Key.urlSurtAndTimeID surt ltime lid :: keys,
      key ∈ db ∧ urlSurtAndTimeIDRange1 surt key := fun key member =>
    Store.mem_descending.mp (descending ▸ member)
  obtain ⟨⟨held, -⟩, later⟩ := List.forall_mem_cons.mp indexed
  obtain ⟨slot, slots, rfl⟩ := List.exists_cons_of_length_pos room
  obtain ⟨res, got, time, -⟩ := getResponse_of_agree agree (agree.urlStored held) slot
  obtain ⟨rest, done⟩ := historyLoop_of_agree agree later slots
  have unpacked : Txn.call (urlSurtAndTimeIDKeyUnpack (.urlSurtAndTimeID surt ltime lid)) db =
      (.ok (surt, ltime, lid), db) := rfl
  have filled : historyLoop (slot :: slots) (db.descending (urlSurtAndTimeIDRange1 surt)) db =
      (.ok (res :: rest), db) := by
    simp only [descending, historyLoop, Txn.bind_of_ok unpacked, Txn.bind_of_ok got,
      Txn.bind_of_ok done, Txn.pure_apply]
  have times : List.Forall₂ (fun (res : Response) time => res.time = time)
      (resMergeCommonContent (res :: rest)) ((res :: rest).map Response.time) :=
    forall₂_mergeCommonContent (fun _ _ _ _ same => same)
      (List.forall₂_map_right_iff.mpr (List.forall₂_same.mpr fun _ _ => rfl))
  cases merged : resMergeCommonContent (res :: rest) with
  | nil =>
      rw [merged] at times
      cases times
  | cons first others =>
      rw [merged] at times
      cases times with
      | cons sameTime _ =>
          refine ⟨first, others, ?_, sameTime.trans time⟩
          rw [hxGetHistory, Txn.assert_bind room, normalized, Txn.bind_of_ok (Txn.call_apply _ _),
            Txn.keysr_bind, Txn.bind_of_ok filled, Txn.pure_apply, merged]

/-- **The page of a URL** is outdated when its latest response fails the check. -/
theorem pageHistory_of_agree {now : ℕ} {page : HistoryPage}
    (written : (pageHistory now url db).1 = .ok page) :
    page.outdated = decide ((ltime + configCrawlDelaySeconds) % 2 ^ 64 < now) := by
  obtain ⟨first, rest, read, time⟩ := hxGetHistory_first agree normalized latest
    (show 0 < (List.replicate configHistoryMax Response.blank).length by decide)
  have done : pageHistory now url db = (.ok page, (pageHistory now url db).2) := by
    rw [← written]
  obtain ⟨obj, -, done⟩ := Txn.call_bind_eq_ok.mp done
  split at done
  · cases (Prod.mk.inj done).1
  · rw [Txn.bind_of_ok read, Txn.pure_apply] at done
    cases (Prod.mk.inj done).1
    rw [historyOutdated, time]

end Agree

end HashArchive.Pages
