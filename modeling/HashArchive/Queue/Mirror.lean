import HashArchive.Db.Agreement
import HashArchive.Queue.System

/-!
# The two queue tables

`Mirror` says that the forward and the reverse keys of the queue come together,
one of each for every SURT. An insertion keeps it (`Mirror.insert`), because the
transaction looks for the SURT among the reverse keys before it writes; so does
the removal of an entry that is queued (`Mirror.remove`). Storing responses
does not touch the queue (`sameQueue_of_added`).
-/

set_option autoImplicit false

namespace HashArchive.Queue

open Db Hash Url

/-- An entry that `queue_add` can make from a URL with some SURT. -/
structure Entry.Accepted (entry : Entry) (surt : Str) : Prop where
  normalized : urlNormalizeSurt entry.url uriMax = .ok surt
  url_lt : entry.url.length < uriMax
  client_eq : entry.client = []
  time_pos : 0 < entry.time
  id_pos : 0 < entry.id

/-- A URL has one SURT. -/
theorem Entry.Accepted.unique {entry : Entry} {surt other : Str} (first : entry.Accepted surt)
    (second : urlNormalizeSurt entry.url uriMax = .ok other) : surt = other :=
  Except.ok.inj (first.normalized.symm.trans second)

/-- A reverse key is in the store. -/
def QueuedSurt (db : Database) (surt : Str) (time id : ℕ) : Prop :=
  Key.queuedURLSurtAndTimeID surt time id ∈ db

/-- **The two queue tables mirror each other.** -/
structure Mirror (db : Database) : Prop where
  forward : ∀ {entry}, Queued db entry →
    ∃ surt, entry.Accepted surt ∧ QueuedSurt db surt entry.time entry.id
  reverse : ∀ {surt time id}, QueuedSurt db surt time id →
    ∃ entry, Queued db entry ∧ entry.Accepted surt ∧ entry.time = time ∧ entry.id = id
  single : ∀ {first second surt}, Queued db first → Queued db second → first.Accepted surt →
    second.Accepted surt → first = second

/-- Two stores hold the same queue. -/
structure SameQueue (db after : Database) : Prop where
  queued : ∀ entry, Queued after entry ↔ Queued db entry
  queuedSurt : ∀ surt time id, QueuedSurt after surt time id ↔ QueuedSurt db surt time id

theorem SameQueue.refl (db : Database) : SameQueue db db :=
  ⟨fun _ => Iff.rfl, fun _ _ _ => Iff.rfl⟩

theorem SameQueue.trans {db between after : Database} (earlier : SameQueue db between)
    (later : SameQueue between after) : SameQueue db after :=
  ⟨fun entry => (later.queued entry).trans (earlier.queued entry),
    fun surt time id => (later.queuedSurt surt time id).trans (earlier.queuedSurt surt time id)⟩

theorem Mirror.congr {db after : Database} (mirror : Mirror db) (same : SameQueue db after) :
    Mirror after := by
  refine ⟨?_, ?_, ?_⟩
  · intro entry queued
    obtain ⟨surt, accepted, held⟩ := mirror.forward ((same.queued entry).mp queued)
    exact ⟨surt, accepted, (same.queuedSurt _ _ _).mpr held⟩
  · intro surt time id held
    obtain ⟨entry, queued, rest⟩ := mirror.reverse ((same.queuedSurt _ _ _).mp held)
    exact ⟨entry, (same.queued entry).mpr queued, rest⟩
  · intro first second surt queued other
    exact mirror.single ((same.queued first).mp queued) ((same.queued second).mp other)

/-- Storing a response does not touch the queue. -/
theorem sameQueue_of_added {res : Response} {id : ℕ} {db after : Database}
    {surt : Str} {val : List Field} (added : Added res id db after surt val) :
    SameQueue db after := by
  refine ⟨fun entry => mem_iff_of_lookup_eq (added.kept _ ?_ ?_ ?_),
    fun text time other => mem_iff_of_lookup_eq (added.kept _ ?_ ?_ ?_)⟩
  all_goals first | (rintro ⟨_, _, _, same⟩; cases same) | simp [Entry.fwdKey]

/-! ## Insertion -/

section Insert

variable {surt : Str} {entry : Entry} {db after : Database}

theorem Inserted.queued_iff (inserted : Inserted surt entry db after) (other : Entry) :
    Queued after other ↔ other = entry ∨ Queued db other := by
  rw [Queued, inserted.written, Finmap.mem_insert, Finmap.mem_insert, Entry.fwdKey_inj]
  simp [Queued]

theorem Inserted.queuedSurt_iff (inserted : Inserted surt entry db after) (text : Str)
    (time id : ℕ) : QueuedSurt after text time id ↔
      (text = surt ∧ time = entry.time ∧ id = entry.id) ∨ QueuedSurt db text time id := by
  rw [QueuedSurt, inserted.written, Finmap.mem_insert, Finmap.mem_insert]
  simp [QueuedSurt, Entry.revKey, Entry.fwdKey]

/-- The entry was not queued. -/
theorem Inserted.absent (inserted : Inserted surt entry db after) (mirror : Mirror db)
    (accepted : entry.Accepted surt) {other : Entry} (same : other.Accepted surt) :
    ¬ Queued db other := by
  intro queued
  obtain ⟨text, acceptedText, held⟩ := mirror.forward queued
  obtain rfl := acceptedText.unique same.normalized
  exact inserted.notQueued _ _ held

/-- An insertion does not touch the responses. -/
theorem Inserted.sameResponses (inserted : Inserted surt entry db after) :
    SameResponses db after := by
  rw [inserted.written]
  refine ⟨fun time id => ?_, fun text time id => ?_, fun algo hash time id => ?_⟩ <;>
    rw [Finmap.lookup_insert_of_ne _ (by simp [Entry.revKey]),
      Finmap.lookup_insert_of_ne _ (by simp [Entry.fwdKey])]

theorem Mirror.insert (mirror : Mirror db) (accepted : entry.Accepted surt)
    (inserted : Inserted surt entry db after) : Mirror after := by
  refine ⟨?_, ?_, ?_⟩
  · intro other queued
    rcases (inserted.queued_iff other).mp queued with rfl | queued
    · exact ⟨surt, accepted, (inserted.queuedSurt_iff _ _ _).mpr (.inl ⟨rfl, rfl, rfl⟩)⟩
    · obtain ⟨text, acceptedText, held⟩ := mirror.forward queued
      exact ⟨text, acceptedText, (inserted.queuedSurt_iff _ _ _).mpr (.inr held)⟩
  · intro text time id held
    rcases (inserted.queuedSurt_iff _ _ _).mp held with ⟨rfl, rfl, rfl⟩ | held
    · exact ⟨entry, (inserted.queued_iff _).mpr (.inl rfl), accepted, rfl, rfl⟩
    · obtain ⟨other, queued, rest⟩ := mirror.reverse held
      exact ⟨other, (inserted.queued_iff _).mpr (.inr queued), rest⟩
  · intro first second text queuedFirst queuedSecond acceptedFirst acceptedSecond
    rcases (inserted.queued_iff _).mp queuedFirst with rfl | queuedFirst <;>
      rcases (inserted.queued_iff _).mp queuedSecond with rfl | queuedSecond
    · rfl
    · obtain rfl := acceptedFirst.unique accepted.normalized
      exact absurd queuedSecond (inserted.absent mirror accepted acceptedSecond)
    · obtain rfl := acceptedSecond.unique accepted.normalized
      exact absurd queuedFirst (inserted.absent mirror accepted acceptedFirst)
    · exact mirror.single queuedFirst queuedSecond acceptedFirst acceptedSecond

end Insert

/-! ## Removal -/

section Remove

variable {entry : Entry} {surt : Str} {db : Database}

theorem queued_erase_iff (other : Entry) :
    Queued ((db.erase entry.fwdKey).erase (entry.revKey surt)) other ↔
      Queued db other ∧ other ≠ entry := by
  rw [Queued, Finmap.mem_erase, Finmap.mem_erase, ne_eq, ne_eq, Entry.fwdKey_inj]
  simp [Queued, and_comm]

theorem queuedSurt_erase_iff (text : Str) (time id : ℕ) :
    QueuedSurt ((db.erase entry.fwdKey).erase (entry.revKey surt)) text time id ↔
      QueuedSurt db text time id ∧ ¬ (text = surt ∧ time = entry.time ∧ id = entry.id) := by
  rw [QueuedSurt, Finmap.mem_erase, Finmap.mem_erase]
  simp [QueuedSurt, Entry.revKey, Entry.fwdKey, and_comm]

/-- A removal does not touch the responses. -/
theorem sameResponses_erase (db : Database) (entry : Entry) (surt : Str) :
    SameResponses db ((db.erase entry.fwdKey).erase (entry.revKey surt)) := by
  refine ⟨fun time id => ?_, fun text time id => ?_, fun algo hash time id => ?_⟩ <;>
    rw [Finmap.lookup_erase_ne (by simp [Entry.revKey]),
      Finmap.lookup_erase_ne (by simp [Entry.fwdKey])]

/-- The removal of a queued entry keeps the mirror. -/
theorem Mirror.remove (mirror : Mirror db) (queued : Queued db entry)
    (normalized : urlNormalizeSurt entry.url uriMax = .ok surt) :
    Mirror ((db.erase entry.fwdKey).erase (entry.revKey surt)) := by
  obtain ⟨text, accepted, -⟩ := mirror.forward queued
  obtain rfl := accepted.unique normalized
  refine ⟨?_, ?_, ?_⟩
  · intro other stillQueued
    obtain ⟨queuedOther, different⟩ := (queued_erase_iff other).mp stillQueued
    obtain ⟨otherSurt, acceptedOther, held⟩ := mirror.forward queuedOther
    refine ⟨otherSurt, acceptedOther, (queuedSurt_erase_iff _ _ _).mpr ⟨held, fun same => ?_⟩⟩
    exact different (mirror.single queuedOther queued (same.1 ▸ acceptedOther) accepted)
  · intro otherSurt time id held
    obtain ⟨held, different⟩ := (queuedSurt_erase_iff _ _ _).mp held
    obtain ⟨other, queuedOther, acceptedOther, rfl, rfl⟩ := mirror.reverse held
    refine ⟨other, (queued_erase_iff _).mpr ⟨queuedOther, ?_⟩, acceptedOther, rfl, rfl⟩
    rintro rfl
    exact different ⟨(accepted.unique acceptedOther.normalized).symm, rfl, rfl⟩
  · intro first second otherSurt queuedFirst queuedSecond
    exact mirror.single ((queued_erase_iff _).mp queuedFirst).1 ((queued_erase_iff _).mp queuedSecond).1

end Remove

/-! ## Transactions that store responses -/

/-- The responses of a batch were added one after the other. -/
inductive AddedAll : List Response → ℕ → Database → Database → Prop where
  | nil (id : ℕ) (db : Database) : AddedAll [] id db db
  | cons {res : Response} {responses : List Response} {id : ℕ} {db between after : Database}
      {surt : Str} {val : List Field} (added : Added res id db between surt val)
      (rest : AddedAll responses (id + 1) between after) :
      AddedAll (res :: responses) id db after

theorem importTxn_eq_ok {responses : List Response} {id nextId : ℕ} {db after : Database}
    (imported : importTxn responses id db = (.ok nextId, after)) :
    nextId = id + responses.length ∧ AddedAll responses id db after := by
  induction responses generalizing id db with
  | nil =>
      cases imported
      exact ⟨rfl, .nil _ _⟩
  | cons res responses ih =>
      obtain ⟨done, between, added, imported⟩ := Txn.bind_eq_ok.mp imported
      obtain ⟨surt, val, added⟩ := hxResponseAdd_eq_ok added
      obtain ⟨rfl, rest⟩ := ih imported
      exact ⟨by rw [List.length_cons]; omega, .cons added rest⟩

theorem AddedAll.sameQueue {responses : List Response} {id : ℕ} {db after : Database}
    (all : AddedAll responses id db after) : SameQueue db after := by
  induction all with
  | nil => exact SameQueue.refl _
  | cons added rest ih => exact (sameQueue_of_added added).trans ih

theorem AddedAll.grows {responses : List Response} {id : ℕ} {db after : Database}
    (all : AddedAll responses id db after) : Grows db after := by
  induction all with
  | nil => exact Grows.refl _
  | cons added rest ih => exact added.grows.trans ih

theorem AddedAll.tablesAgree {responses : List Response} {id : ℕ} {db after : Database}
    (agree : TablesAgree db) (all : AddedAll responses id db after) : TablesAgree after := by
  induction all with
  | nil => exact agree
  | cons added rest ih => exact ih (agree.add added)

section Work

/-- **What the transaction of a worker has done**: an entry was removed from the queue
and a response was added. -/
inductive Worked (entry : Entry) (res : Response) (newId : ℕ) (db after : Database) : Prop where
  | intro {surt resSurt : Str} {val : List Field}
      (normalized : urlNormalizeSurt entry.url uriMax = .ok surt)
      (added : Added res newId ((db.erase entry.fwdKey).erase (entry.revKey surt)) after resSurt val)

variable {entry : Entry} {res : Response} {newId : ℕ} {db after : Database}

theorem workTxn_eq_ok {strict : Bool} {done : Unit}
    (committed : workTxn strict entry res newId db = (.ok done, after)) :
    Worked entry res newId db after := by
  obtain ⟨_, between, removed, added⟩ := Txn.bind_eq_ok.mp committed
  obtain ⟨surt, normalized, rfl⟩ := queueRemove_eq_ok removed
  obtain ⟨resSurt, val, added⟩ := hxResponseAdd_eq_ok added
  exact .intro normalized added

theorem Worked.queued_iff (worked : Worked entry res newId db after) (other : Entry) :
    Queued after other ↔ Queued db other ∧ other ≠ entry := by
  obtain ⟨-, added⟩ := worked
  exact ((sameQueue_of_added added).queued other).trans (queued_erase_iff other)

theorem Worked.mirror (worked : Worked entry res newId db after) (mirror : Mirror db)
    (queued : Queued db entry) : Mirror after := by
  obtain ⟨normalized, added⟩ := worked
  exact (mirror.remove queued normalized).congr (sameQueue_of_added added)

theorem Worked.fresh (worked : Worked entry res newId db after) :
    Key.timeIDToResponse res.time newId ∉ db := by
  obtain @⟨surt, _, _, -, added⟩ := worked
  intro taken
  exact added.fresh ((mem_iff_of_lookup_eq ((sameResponses_erase db entry surt).1 _ _)).mpr taken)

/-- The response is the only new one. -/
theorem Worked.response_iff (worked : Worked entry res newId db after) {time id : ℕ} :
    Key.timeIDToResponse time id ∈ after ↔
      (time = res.time ∧ id = newId) ∨ Key.timeIDToResponse time id ∈ db := by
  obtain @⟨surt, _, _, -, added⟩ := worked
  rw [added.response_iff, mem_iff_of_lookup_eq ((sameResponses_erase db entry surt).1 time id)]

theorem Worked.stores (worked : Worked entry res newId db after) :
    Stores after res.time newId res.url res.digests := by
  obtain ⟨-, added⟩ := worked
  exact added.stores

theorem Worked.present (worked : Worked entry res newId db after) : Present after res newId := by
  obtain ⟨-, added⟩ := worked
  exact added.present

/-- The response is indexed under the SURT of its URL. -/
theorem Worked.urlKey (worked : Worked entry res newId db after) {surt : Str}
    (normalized : urlNormalizeSurt res.url uriMax = .ok surt) :
    Key.urlSurtAndTimeID surt res.time newId ∈ after := by
  obtain ⟨-, added⟩ := worked
  obtain rfl := Except.ok.inj (added.normalized.symm.trans normalized)
  exact Finmap.mem_iff.mpr ⟨_, added.urlKey⟩

theorem Worked.grows (worked : Worked entry res newId db after) : Grows db after := by
  obtain ⟨-, added⟩ := worked
  exact (sameResponses_erase _ _ _).grows.trans added.grows

theorem Worked.tablesAgree (worked : Worked entry res newId db after) (agree : TablesAgree db) :
    TablesAgree after := by
  obtain ⟨-, added⟩ := worked
  exact (agree.congr (sameResponses_erase _ _ _)).add added

end Work

end HashArchive.Queue
