import HashArchive.Db.ResponseAdd
import Mathlib.Data.Prod.Lex

/-!
# Operations on the queue

A queue entry has a forward key, which starts with its time and id, and a reverse
key, which starts with the SURT of its URL. `queuePeek` seeks the first forward
key after a cursor, `queueAddTxn` is the transaction that inserts an entry, and
`queueRemove` takes one out. They are translated from `queue.c`.

`queuePeek_eq_some` and `queuePeek_eq_none` say what a peek finds, and
`queueAddTxn_cases` what an insertion does. The assertion that the key found
in the range of a SURT has that SURT never fails.
-/

set_option autoImplicit false

namespace HashArchive.Queue

open Db Url

/-- `CONFIG_CRAWL_DELAY_SECONDS`. -/
def configCrawlDelaySeconds : ℕ := 60 * 60 * 24

/-- The size of the buffer for a client. -/
def clientMax : ℕ := 255 + 1

/-- What a forward key of the queue holds. -/
structure Entry where
  time : ℕ
  id : ℕ
  url : Str
  client : Str
deriving DecidableEq, Repr

namespace Entry

/-- The key of `HXTimeIDQueuedURLAndClient`. -/
def fwdKey (entry : Entry) : Key :=
  .timeIDQueuedURLAndClient entry.time entry.id entry.url entry.client

/-- The key of `HXQueuedURLSurtAndTimeID`. -/
def revKey (entry : Entry) (surt : Str) : Key :=
  .queuedURLSurtAndTimeID surt entry.time entry.id

/-- Where an entry stands in the order of times and ids. -/
def position (entry : Entry) : ℕ ×ₗ ℕ := toLex (entry.time, entry.id)

@[simp] theorem fwdKey_inj {first second : Entry} : first.fwdKey = second.fwdKey ↔ first = second := by
  cases first
  cases second
  simp [fwdKey]

@[simp] theorem fwdKey_ne_revKey (first second : Entry) (surt : Str) :
    first.fwdKey ≠ second.revKey surt := by
  simp [fwdKey, revKey]

/-- Keys are ordered by position first. -/
theorem position_le_of_fwdKey_le {first second : Entry} (le : first.fwdKey ≤ second.fwdKey) :
    first.position ≤ second.position := by
  rw [← not_lt] at le ⊢
  intro lt
  refine le (Key.lt_iff_rank_lt.mpr ?_)
  simp only [position, Prod.Lex.toLex_lt_toLex] at lt
  simp only [Key.rank, fwdKey, Key.fields, List.map_cons, Field.rank, List.cons_lt_cons_iff]
  simp only [lt_irrefl, true_and, false_or, and_true, List.cons.injEq]
  rcases lt with time | ⟨time, id⟩
  · exact .inl (.inl time)
  · exact .inr ⟨time, .inl (.inl id)⟩

end Entry

/-- An entry is in the forward table. -/
def Queued (db : Database) (entry : Entry) : Prop := entry.fwdKey ∈ db

instance (db : Database) (entry : Entry) : Decidable (Queued db entry) :=
  inferInstanceAs (Decidable (_ ∈ db))

/-! ## Peeking -/

/-- The forward keys from the one that `queue_peek` seeks on. -/
def peekRange (workTime workId : ℕ) (key : Key) : Prop :=
  timeIDQueuedURLAndClientRange0 key ∧
    ¬ key.rank < [Field.uint64 30, .uint64 workTime, .uint64 (workId + 1)].map Field.rank

instance (workTime workId : ℕ) : DecidablePred (peekRange workTime workId) := fun _ =>
  inferInstanceAs (Decidable (_ ∧ _))

/-- `HXTimeIDQueuedURLAndClientKeyUnpack`. -/
def timeIDQueuedURLAndClientKeyUnpack : Key → Result Entry
  | .timeIDQueuedURLAndClient time id url client => .ok ⟨time, id, url, client⟩
  | _ => .error (.fault .assertion)

/-- `queue_peek` without the assignments to the cursor: the entry copied into the
buffers of the worker, or `none` for `KVS_NOTFOUND`. -/
def queuePeek (workTime workId : ℕ) : DbTxn (Option Entry) := do
  match ← Txn.kvsFirstr (peekRange workTime workId) with
  | none => pure none
  | some key => do
    let entry ← Txn.call (timeIDQueuedURLAndClientKeyUnpack key)
    pure (some { entry with
      url := strlcpy entry.url uriMax
      client := strlcpy entry.client clientMax })

theorem peekRange_iff {workTime workId : ℕ} {key : Key} :
    peekRange workTime workId key ↔
      ∃ entry : Entry, key = entry.fwdKey ∧ toLex (workTime, workId) < entry.position := by
  rw [peekRange, timeIDQueuedURLAndClientRange0_iff]
  have beyond (entry : Entry) :
      ¬ entry.fwdKey.rank < [Field.uint64 30, .uint64 workTime, .uint64 (workId + 1)].map Field.rank ↔
        toLex (workTime, workId) < entry.position := by
    simp only [Key.rank, Entry.fwdKey, Key.fields, List.map_cons, List.map_nil, Field.rank,
      List.cons_lt_cons_iff, Entry.position, Prod.Lex.toLex_lt_toLex, List.cons.injEq]
    simp only [lt_irrefl, true_and, false_or, and_true, List.not_lt_nil, and_false, or_false]
    omega
  constructor
  · rintro ⟨⟨time, id, url, client, rfl⟩, notBefore⟩
    exact ⟨⟨time, id, url, client⟩, rfl, (beyond ⟨time, id, url, client⟩).mp notBefore⟩
  · rintro ⟨entry, rfl, after⟩
    exact ⟨⟨_, _, _, _, rfl⟩, (beyond entry).mpr after⟩

section Peek

variable {db : Database} {workTime workId : ℕ}

/-- A peek does not fail by itself. -/
theorem queuePeek_ne_error {failure : Failure} :
    (queuePeek workTime workId db).1 ≠ .error failure := by
  rw [queuePeek, Txn.firstr_bind]
  cases first : db.firstWithin (peekRange workTime workId) with
  | none => simp
  | some key =>
      obtain ⟨⟨-, inRange⟩, -⟩ := Store.firstWithin_eq_some_iff.mp first
      obtain ⟨entry, rfl, -⟩ := peekRange_iff.mp inRange
      rintro ⟨⟩

/-- A peek that finds nothing has nothing after the cursor. -/
theorem queuePeek_eq_none (nothing : (queuePeek workTime workId db).1 = .ok none) :
    ∀ entry, Queued db entry → ¬ toLex (workTime, workId) < entry.position := by
  intro entry queued after
  cases first : db.firstWithin (peekRange workTime workId) with
  | none =>
      exact Store.firstWithin_eq_none_iff.mp first _ queued (peekRange_iff.mpr ⟨entry, rfl, after⟩)
  | some key =>
      obtain ⟨⟨-, inRange⟩, -⟩ := Store.firstWithin_eq_some_iff.mp first
      obtain ⟨other, rfl, -⟩ := peekRange_iff.mp inRange
      rw [queuePeek, Txn.firstr_bind, first] at nothing
      cases nothing

/-- **What a peek finds**: the first entry after the cursor, when the entries fit the
buffers. -/
theorem queuePeek_eq_some {entry : Entry} (found : (queuePeek workTime workId db).1 = .ok (some entry))
    (fits : ∀ entry, Queued db entry → entry.url.length < uriMax ∧ entry.client.length < clientMax) :
    Queued db entry ∧ toLex (workTime, workId) < entry.position ∧
      ∀ other, Queued db other → toLex (workTime, workId) < other.position →
        entry.position ≤ other.position := by
  rw [queuePeek, Txn.firstr_bind] at found
  cases first : db.firstWithin (peekRange workTime workId) with
  | none =>
      rw [first] at found
      cases found
  | some key =>
      obtain ⟨⟨held, inRange⟩, least⟩ := Store.firstWithin_eq_some_iff.mp first
      obtain ⟨seen, rfl, after⟩ := peekRange_iff.mp inRange
      obtain ⟨urlFits, clientFits⟩ := fits seen held
      have copied : entry = seen := by
        rw [first] at found
        cases found
        rw [strlcpy_of_length_lt urlFits, strlcpy_of_length_lt clientFits]
      subst copied
      refine ⟨held, after, fun other queued beyond => ?_⟩
      exact Entry.position_le_of_fwdKey_le (least _ queued (peekRange_iff.mpr ⟨other, rfl, beyond⟩))

end Peek

/-! ## Inserting and removing -/

/-- The two writes of `queue_add`. -/
def queueInsert (surt : Str) (entry : Entry) : DbTxn Bool := do
  Txn.kvsPut entry.fwdKey [] false
  Txn.kvsPut (entry.revKey surt) [] false
  pure true

/-- The transaction of `queue_add`, for the SURT of the URL: `true` when it goes on to
commit, `false` when the URL is queued already. -/
def queueAddTxn (surt : Str) (entry : Entry) : DbTxn Bool := do
  match ← Txn.kvsLastr (queuedURLSurtAndTimeIDRange1 surt) with
  | some _ => pure false -- If it's already queued, return success.
  | none =>
    match ← Txn.kvsLastr (urlSurtAndTimeIDRange1 surt) with
    | none => queueInsert surt entry
    | some chkKey => do
      let (x, ltime, _) ← Txn.call (urlSurtAndTimeIDKeyUnpack chkKey)
      Txn.call (assertThat (x = surt))
      if (ltime + configCrawlDelaySeconds) % 2 ^ 64 < entry.time then queueInsert surt entry
      else Txn.call (.error (.code .kvsKeyexist))

/-- `queue_remove`. -/
def queueRemove (strict : Bool) (entry : Entry) : DbTxn Unit := do
  Txn.call (assertThat (entry.time ≠ 0))
  Txn.call (assertThat (entry.id ≠ 0))
  let surt ← Txn.call (urlNormalizeSurt entry.url uriMax)
  Txn.kvsDel strict entry.fwdKey
  Txn.kvsDel strict (entry.revKey surt)

/-- **What an insertion has done.** -/
structure Inserted (surt : Str) (entry : Entry) (db after : Database) : Prop where
  notQueued : ∀ time id, Key.queuedURLSurtAndTimeID surt time id ∉ db
  due : ∀ time id, Key.urlSurtAndTimeID surt time id ∈ db →
    ∃ ltime lid, Key.urlSurtAndTimeID surt ltime lid ∈ db ∧ time ≤ ltime ∧
      (ltime + configCrawlDelaySeconds) % 2 ^ 64 < entry.time
  written : after = (db.insert entry.fwdKey []).insert (entry.revKey surt) []

theorem queueInsert_apply (surt : Str) (entry : Entry) (db : Database) :
    queueInsert surt entry db =
      (.ok true, (db.insert entry.fwdKey []).insert (entry.revKey surt) []) := by
  have first : Txn.kvsPut entry.fwdKey ([] : List Field) false db =
      (.ok (), db.insert entry.fwdKey []) := if_neg (by simp)
  have second : Txn.kvsPut (entry.revKey surt) ([] : List Field) false
      (db.insert entry.fwdKey []) =
        (.ok (), (db.insert entry.fwdKey []).insert (entry.revKey surt) []) := if_neg (by simp)
  rw [queueInsert, Txn.bind_of_ok first, Txn.bind_of_ok second, Txn.pure_apply]

/-- **The transaction of `queue_add`** inserts the entry, or leaves the store as it was:
when its URL is queued, and when it was crawled too recently. -/
theorem queueAddTxn_cases (surt : Str) (entry : Entry) (db : Database) :
    (∃ after, queueAddTxn surt entry db = (.ok true, after) ∧ Inserted surt entry db after) ∨
      queueAddTxn surt entry db = (.ok false, db) ∨
      queueAddTxn surt entry db = (.error (.code .kvsKeyexist), db) := by
  rw [queueAddTxn, Txn.lastr_bind]
  cases queued : db.lastWithin (queuedURLSurtAndTimeIDRange1 surt) with
  | some _ => exact .inr (.inl rfl)
  | none =>
  have notQueued : ∀ time id, Key.queuedURLSurtAndTimeID surt time id ∉ db := fun time id held =>
    Store.lastWithin_eq_none_iff.mp queued _ held
      (queuedURLSurtAndTimeIDRange1_iff.mpr ⟨time, id, rfl⟩)
  dsimp only
  rw [Txn.lastr_bind]
  cases crawled : db.lastWithin (urlSurtAndTimeIDRange1 surt) with
  | none =>
      refine .inl ⟨_, queueInsert_apply surt entry db, notQueued, fun time id held => ?_, rfl⟩
      exact absurd (urlSurtAndTimeIDRange1_iff.mpr ⟨time, id, rfl⟩)
        (Store.lastWithin_eq_none_iff.mp crawled _ held)
  | some chkKey =>
      obtain ⟨⟨held, inRange⟩, greatest⟩ := Store.lastWithin_eq_some_iff.mp crawled
      obtain ⟨ltime, lid, rfl⟩ := urlSurtAndTimeIDRange1_iff.mp inRange
      have unpacked : Txn.call (urlSurtAndTimeIDKeyUnpack (.urlSurtAndTimeID surt ltime lid)) db =
          (.ok (surt, ltime, lid), db) := rfl
      simp only [Txn.bind_of_ok unpacked, Txn.assert_bind]
      by_cases due : (ltime + configCrawlDelaySeconds) % 2 ^ 64 < entry.time
      · rw [if_pos due]
        refine .inl ⟨_, queueInsert_apply surt entry db, notQueued, fun time id indexed => ?_, rfl⟩
        have notLess := not_lt.mpr
          (greatest _ indexed (urlSurtAndTimeIDRange1_iff.mpr ⟨time, id, rfl⟩))
        rw [Key.urlSurtAndTimeID_lt_iff] at notLess
        exact ⟨ltime, lid, held, by omega, due⟩
      · rw [if_neg due]
        exact .inr (.inr rfl)

/-- What the removal of an entry has done. -/
theorem queueRemove_eq_ok {strict : Bool} {entry : Entry} {db after : Database} {done : Unit}
    (removed : queueRemove strict entry db = (.ok done, after)) :
    ∃ surt, urlNormalizeSurt entry.url uriMax = .ok surt ∧
      after = (db.erase entry.fwdKey).erase (entry.revKey surt) := by
  obtain ⟨-, -, removed⟩ := Txn.call_bind_eq_ok.mp removed
  obtain ⟨-, -, removed⟩ := Txn.call_bind_eq_ok.mp removed
  obtain ⟨surt, normalized, removed⟩ := Txn.call_bind_eq_ok.mp removed
  obtain ⟨-, removed⟩ := Txn.del_bind_eq_ok.mp removed
  obtain ⟨-, rfl⟩ := Txn.del_eq_ok.mp removed
  exact ⟨surt, normalized, rfl⟩

end HashArchive.Queue
