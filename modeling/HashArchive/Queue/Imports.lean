import HashArchive.Foundations.Reservation
import HashArchive.Queue.Answers

/-!
# Imported responses

A connection stores the responses of its client under their times and a count of its
own that starts at 0; workers store theirs under an id of the process. Nothing keeps
the two, or two connections, apart. When a client sends a response whose time and
position are in use, the first write of `hx_response_add` is refused, the whole batch
is aborted and the connection ends: `imports_collide` is a run in which a
well-formed response is lost in this way.

`imports_kept_of_unused` says that this is the only way. In a run in which every time
and position that is sent is unused, every batch and every crawl is stored, and every
response that was sent is stored or still on its way. From the moment its key is fixed
until it is stored, a response reserves it (`Accounted.reserves`).
-/

set_option autoImplicit false

namespace HashArchive.Queue

open Db Hash Url

/-! ## Keys -/

/-- The entry that a worker is fetching, and the id of its response. -/
def Worker.crawl : Worker → Option (Entry × ℕ)
  | .fetching entry newId => some (entry, newId)
  | _ => none

/-- The key that a worker stores its response under. -/
def Worker.key : Worker → Option (ℕ × ℕ)
  | .fetched _ newId res => some (res.time, newId)
  | _ => none

/-- The time that a call of `queue_add` has read. -/
def Caller.now : Caller → Option ℕ
  | .called now _ => some now
  | _ => none

/-- The key of a response that a client sends. -/
def Event.sentKey : Event → Option (ℕ × ℕ)
  | .sent position res => some (res.time, position)
  | _ => none

/-! ## Conditions on a step -/

section Conditions

variable {workers : ℕ}

/-- No response was sent or stored under a key, and no worker is about to store one. -/
def Unused (state : State workers) (key : ℕ × ℕ) : Prop :=
  key ∉ state.history.filterMap Event.sentKey ∧
    key ∉ state.history.filterMap Event.storedKey ∧
    ∀ worker, (state.worker worker).key ≠ some key

/-- The responses that come in are well-formed, their keys are unused, and no batch fails
for another reason. -/
def KeysUnused (state : State workers) : Action workers → Prop
  | .connect _ responses => ∀ pending ∈ responses.zipIdx,
      pending.1.WellFormed ∧ Unused state (responseKey pending)
  | .fetch worker content => ∀ crawl ∈ (state.worker worker).crawl,
      (urlFetch state.clock crawl.1.url content).WellFormed ∧ Unused state (state.clock, crawl.2)
  | .importBatch _ failing => failing = false
  | _ => True

/-- An action stops the process: it is stopped, or fails the assertion of `queue_add` on
the time. -/
def StopsProcess (state : State workers) : Action workers → Prop
  | .restart => True
  | .takeId caller => (state.caller caller).now = some 0
  | _ => False

/-- **Imports are kept apart**: keys are unused, and the process does not stop while a
connection is open. -/
structure KeptApart (state : State workers) (action : Action workers) : Prop where
  unused : KeysUnused state action
  ended : StopsProcess state action → ∀ connection, state.connection connection = .closed

instance (state : State workers) (key : ℕ × ℕ) : Decidable (Unused state key) :=
  inferInstanceAs (Decidable (_ ∧ _ ∧ _))

instance (state : State workers) (action : Action workers) :
    Decidable (KeysUnused state action) := by
  induction action using Action.casesOn <;>
    first
      | exact .isTrue trivial
      | exact inferInstanceAs (Decidable (∀ pending ∈ List.zipIdx _, _ ∧ _))
      | exact inferInstanceAs (Decidable (∀ crawl ∈ Worker.crawl _, _ ∧ _))
      | exact inferInstanceAs (Decidable (_ = _))

instance (state : State workers) (action : Action workers) :
    Decidable (StopsProcess state action) := by
  induction action using Action.casesOn <;>
    first
      | exact .isTrue trivial
      | exact .isFalse id
      | exact inferInstanceAs (Decidable (_ = _))

end Conditions

/-! ## Transactions that find their keys free -/

/-- **A batch of well-formed responses under free keys is stored.** -/
theorem importTxn_of_fresh {responses : List Response} {id : ℕ} {db : Database}
    (agree : TablesAgree db) (wellFormed : ∀ res ∈ responses, res.WellFormed)
    (fresh : ∀ pending ∈ responses.zipIdx id,
      Key.timeIDToResponse pending.1.time pending.2 ∉ db) :
    ∃ after, importTxn responses id db = (.ok (id + responses.length), after) := by
  induction responses generalizing id db with
  | nil => exact ⟨db, rfl⟩
  | cons res responses ih =>
      rw [List.forall_mem_cons] at wellFormed
      rw [List.zipIdx_cons, List.forall_mem_cons] at fresh
      obtain ⟨between, stored⟩ := hxResponseAdd_of_fresh agree wellFormed.1 fresh.1
      obtain ⟨surt, val, added⟩ := hxResponseAdd_eq_ok stored
      have stillFresh (pending : Response × ℕ) (member : pending ∈ responses.zipIdx (id + 1)) :
          Key.timeIDToResponse pending.1.time pending.2 ∉ between := by
        rw [added.response_iff, not_or]
        have later := List.le_snd_of_mem_zipIdx member
        exact ⟨fun same => by omega, fresh.2 pending member⟩
      obtain ⟨after, imported⟩ := ih (agree.add added) wellFormed.2 stillFresh
      refine ⟨after, ?_⟩
      rw [importTxn, Txn.bind_of_ok stored, imported, List.length_cons, add_assoc, add_comm 1]

/-- The removal of a queued entry succeeds. -/
theorem queueRemove_of_queued {strict : Bool} {entry : Entry} {surt : Str} {db : Database}
    (accepted : entry.Accepted surt) (queued : Queued db entry)
    (held : QueuedSurt db surt entry.time entry.id) : queueRemove strict entry db =
      (.ok (), (db.erase entry.fwdKey).erase (entry.revKey surt)) := by
  have delForward : Txn.kvsDel strict entry.fwdKey db = (.ok (), db.erase entry.fwdKey) :=
    Txn.del_eq_ok.mpr ⟨fun _ => queued, rfl⟩
  have stillHeld : entry.revKey surt ∈ db.erase entry.fwdKey :=
    Finmap.mem_erase.mpr ⟨(Entry.fwdKey_ne_revKey _ _ _).symm, held⟩
  rw [queueRemove, Txn.assert_bind accepted.time_pos.ne', Txn.assert_bind accepted.id_pos.ne',
    accepted.normalized, Txn.bind_of_ok (Txn.call_apply _ _), Txn.bind_of_ok delForward]
  exact Txn.del_eq_ok.mpr ⟨fun _ => stillHeld, rfl⟩

/-- **A well-formed crawl of a queued entry under a free key is stored.** -/
theorem workTxn_of_fresh {strict : Bool} {entry : Entry} {res : Response} {newId : ℕ}
    {db : Database} (mirror : Mirror db) (agree : TablesAgree db) (queued : Queued db entry)
    (wellFormed : res.WellFormed) (fresh : Key.timeIDToResponse res.time newId ∉ db) :
    ∃ after, workTxn strict entry res newId db = (.ok (), after) := by
  obtain ⟨surt, accepted, held⟩ := mirror.forward queued
  have same := sameResponses_erase db entry surt
  rw [workTxn, Txn.bind_of_ok (queueRemove_of_queued accepted queued held)]
  refine hxResponseAdd_of_fresh (agree.congr same) wellFormed fun taken => fresh ?_
  exact (mem_iff_of_lookup_eq (same.1 _ _)).mp taken

/-! ## What every step keeps -/

/-- The keys of the responses that a connection still has to store. -/
def Connection.keys (connection : Connection) : Set (ℕ × ℕ) :=
  {key | ∃ pending ∈ connection.pending, responseKey pending = key}

/-- The key of the response that a worker is about to store. -/
def Worker.keys (worker : Worker) : Set (ℕ × ℕ) := {key | worker.key = some key}

namespace State

variable {workers : ℕ}

/-- The keys that connections and workers have reserved. -/
def reservations (state : State workers) : Reservations (ℕ × ℕ) (ℕ ⊕ Fin workers) where
  stored := {key | Key.timeIDToResponse key.1 key.2 ∈ state.db}
  reserved := Sum.elim (Connection.keys ∘ state.connection) (Worker.keys ∘ state.worker)

variable (state : State workers)

/-- A step of one connection, in the reservations. -/
theorem reservations_setConnection (connection : ℕ) (value : Connection) :
    (state.setConnection connection value).reservations = { state.reservations with
      reserved := Function.update state.reservations.reserved (.inl connection) value.keys } := by
  refine Reservations.ext rfl ?_
  show Sum.elim (Connection.keys ∘ Function.update state.connection connection value) _ =
    Function.update (Sum.elim (Connection.keys ∘ state.connection) _) (.inl connection) value.keys
  rw [Sum.update_elim_inl, Function.comp_update]
  rfl

/-- A step of one worker, in the reservations. -/
theorem reservations_setWorker (worker : Fin workers) (value : Worker) :
    (state.setWorker worker value).reservations = { state.reservations with
      reserved := Function.update state.reservations.reserved (.inr worker) value.keys } := by
  refine Reservations.ext rfl ?_
  show Sum.elim _ (Worker.keys ∘ Function.update state.worker worker value) =
    Function.update (Sum.elim _ (Worker.keys ∘ state.worker)) (.inr worker) value.keys
  rw [Sum.update_elim_inr, Function.comp_update]
  rfl

end State

/-- **What holds while imports are kept apart.** -/
structure Accounted {workers : ℕ} (state : State workers) : Prop where
  reserves : state.reservations.Sound
  sourced : Sourced state
  sentWellFormed : ∀ {position res}, Event.sent position res ∈ state.history → res.WellFormed
  fetchedWellFormed : ∀ {worker entry newId res},
    state.worker worker = .fetched entry newId res → res.WellFormed
  /-- What was sent is stored or on its way. -/
  sent : ∀ {position res}, Event.sent position res ∈ state.history →
    Present state.db res position ∨
      ∃ connection, (res, position) ∈ (state.connection connection).pending
  answered : ∀ {entry newId res}, Event.answered entry newId res ∈ state.history →
    Present state.db res newId

section Steps

variable {workers : ℕ} {strict : Bool} {state next : State workers} {action : Action workers}

/-- The history holds the key of a response that was sent. -/
theorem sentKey_mem {position : ℕ} {res : Response}
    (sent : Event.sent position res ∈ state.history) :
    (res.time, position) ∈ state.history.filterMap Event.sentKey :=
  List.mem_filterMap.mpr ⟨_, sent, rfl⟩

/-- An unused key is free. -/
theorem Accounted.free (accounted : Accounted state) {key : ℕ × ℕ} (unused : Unused state key) :
    state.reservations.Free key := by
  obtain ⟨notSent, notStored, notFetched⟩ := unused
  refine ⟨fun stored => ?_, ?_⟩
  · obtain ⟨res, sameTime, -, ⟨entry, answered⟩ | sent⟩ := accounted.sourced.stored stored
    · exact notStored (List.mem_filterMap.mpr ⟨_, answered,
        congrArg some (Prod.ext sameTime rfl)⟩)
    · exact notSent (List.mem_filterMap.mpr ⟨_, sent, congrArg some (Prod.ext sameTime rfl)⟩)
  · rintro (connection | worker) reserved
    · obtain ⟨⟨res, position⟩, member, rfl⟩ := reserved
      exact notSent (sentKey_mem (accounted.sourced.pending member))
    · exact notFetched worker reserved

/-- A response on its way has a free key. -/
theorem Accounted.pending_fresh (accounted : Accounted state) {connection : ℕ}
    {pending : Response × ℕ} (member : pending ∈ (state.connection connection).pending) :
    Key.timeIDToResponse pending.1.time pending.2 ∉ state.db := by
  have reserved : responseKey pending ∈ state.reservations.reserved (.inl connection) :=
    ⟨pending, member, rfl⟩
  exact accounted.reserves.notStored reserved

/-- **The next batch of a connection is stored.** -/
theorem Accounted.import_succeeds (accounted : Accounted state) (sound : Sound state)
    {connection id : ℕ} {responses : List Response}
    (receiving : state.connection connection = .receiving id responses) :
    ∃ after, importTxn (responses.take responseBatchSize) id state.db =
      (.ok (id + (responses.take responseBatchSize).length), after) := by
  have pending {pending : Response × ℕ}
      (member : pending ∈ (responses.take responseBatchSize).zipIdx id) :
      pending ∈ (state.connection connection).pending := by
    rw [receiving, Connection.pending, ← List.take_append_drop responseBatchSize responses,
      List.zipIdx_append]
    exact List.mem_append_left _ member
  refine importTxn_of_fresh sound.agree (fun res member => ?_) fun response member =>
    accounted.pending_fresh (pending member)
  rw [← List.zipIdx_map_fst id (responses.take responseBatchSize)] at member
  obtain ⟨response, numbered, rfl⟩ := List.mem_map.mp member
  exact accounted.sentWellFormed (accounted.sourced.pending (pending numbered))

/-- **What a worker has fetched is stored.** -/
theorem Accounted.work_succeeds (accounted : Accounted state) (sound : Sound state)
    {worker : Fin workers} {entry : Entry} {newId : ℕ} {res : Response}
    (fetched : state.worker worker = .fetched entry newId res) :
    ∃ after, workTxn strict entry res newId state.db = (.ok (), after) := by
  have queued := sound.held_queued (congrArg Worker.held fetched)
  have reserved : (res.time, newId) ∈ state.reservations.reserved (.inr worker) :=
    congrArg Worker.key fetched
  exact workTxn_of_fresh sound.mirror sound.agree queued
    (accounted.fetchedWellFormed fetched) (accounted.reserves.notStored reserved)

/-! ### Steps reserve, store and release keys -/

theorem reserve_setWorker (worker : Fin workers) {value : Worker} (noKey : value.key = none) :
    Reservations.Step state.reservations (state.setWorker worker value).reservations := by
  rw [State.reservations_setWorker]
  refine .give_up fun key (reserved : value.key = some key) => ?_
  rw [noKey] at reserved
  cases reserved

/-- **Every step reserves, stores or releases keys.** -/
theorem Accounted.simulates (accounted : Accounted state) (unused : KeysUnused state action)
    (step : Step strict state action next) :
    Reservations.Step state.reservations next.reservations := by
  cases step with
  | tick | call | number | leave => exact .of_subset rfl fun _ => subset_rfl
  | insert numbered inserted =>
      refine .of_subset (Set.ext fun key => ?_) fun _ => subset_rfl
      exact mem_iff_of_lookup_eq (inserted.sameResponses.1 _ _)
  | broadcast committed =>
      refine .of_subset rfl ?_
      rintro (connection | worker)
      · exact subset_rfl
      · intro key (reserved : (if state.worker worker = .waiting then Worker.woken
          else state.worker worker).key = some key)
        split_ifs at reserved
        · cases reserved
        · exact reserved
  | lock | giveUp | find | miss | claim | wait | allocate | fail => exact reserve_setWorker _ rfl
  | @fetch worker entry newId content fetching =>
      rw [State.reservations_setWorker]
      refine .reserve fun key (reserved : some (state.clock, newId) = some key) => ?_
      have crawl : (entry, newId) ∈ (state.worker worker).crawl := congrArg Worker.crawl fetching
      exact Option.some_inj.mp reserved ▸ accounted.free (unused _ crawl).2
  | @connect connection responses closed =>
      show Reservations.Step _ (state.setConnection connection (.receiving 0 responses)).reservations
      rw [State.reservations_setConnection]
      refine .reserve ?_
      rintro _ ⟨pending, member, rfl⟩
      exact accounted.free (unused pending member).2
  | @disconnect connection id failing responses receiving why =>
      rw [State.reservations_setConnection]
      refine .give_up ?_
      rintro _ ⟨pending, member, -⟩
      cases member
  | @importBatch connection id nextId responses after receiving committed =>
      obtain ⟨rfl, all⟩ := importTxn_eq_ok committed
      have viewed := State.reservations_setConnection state connection
        (State.afterBatch (id + (responses.take responseBatchSize).length) responses)
      have split (pending : Response × ℕ) :
          pending ∈ (state.connection connection).pending ↔ _ := receiving ▸ mem_pending_iff
      refine .of_store ?_ ?_ ?_ (fun key => all.response_iff) (congrArg Reservations.reserved viewed)
      · rintro _ ⟨pending, member, same⟩
        exact ⟨pending, (split pending).mpr (.inl member), same⟩
      · rintro _ ⟨pending, member, rfl⟩
        exact ⟨pending, (split pending).mpr (.inr member), rfl⟩
      · rintro key ⟨first, memberFirst, same⟩ ⟨second, memberSecond, rfl⟩
        rw [pending_afterBatch] at memberSecond
        have before := List.snd_lt_add_of_mem_zipIdx memberFirst
        have later := List.le_snd_of_mem_zipIdx memberSecond
        have position : first.2 = second.2 := (Prod.ext_iff.mp same).2
        omega
  | @answer worker entry newId res done after fetched committed =>
      have worked := workTxn_eq_ok committed
      have viewed := State.reservations_setWorker state worker .idle
      have taken : ({(res.time, newId)} : Set (ℕ × ℕ)) ⊆ state.reservations.reserved (.inr worker) :=
        Set.singleton_subset_iff.mpr (congrArg Worker.key fetched)
      refine .of_store taken ?_ ?_ ?_ (congrArg Reservations.reserved viewed)
      · rintro key ⟨⟩
      · rintro key - ⟨⟩
      · intro key
        rw [Set.mem_singleton_iff, Prod.ext_iff]
        exact worked.response_iff
  | restart stops =>
      refine .of_subset rfl ?_
      rintro (connection | worker) key reserved
      · obtain ⟨pending, member, -⟩ := reserved
        cases member
      · cases reserved

/-- **A response on its way is stored or stays on its way.** -/
theorem Accounted.pending_step (accounted : Accounted state) (sound : Sound state)
    (apart : KeptApart state action) (step : Step strict state action next) {connection : ℕ}
    {pending : Response × ℕ} (member : pending ∈ (state.connection connection).pending) :
    Present next.db pending.1 pending.2 ∨ pending ∈ (next.connection connection).pending := by
  have elsewhere {changed : ℕ} {value : Connection} (different : connection ≠ changed) :
      pending ∈ (Function.update state.connection changed value connection).pending := by
    rwa [Function.update_of_ne different]
  cases step with
  | @connect changed responses closed =>
      refine .inr (elsewhere ?_)
      rintro rfl
      rw [closed] at member
      cases member
  | @importBatch changed id nextId responses after receiving committed =>
      obtain ⟨rfl, all⟩ := importTxn_eq_ok committed
      by_cases same : connection = changed
      · subst same
        rw [receiving] at member
        apply (mem_pending_iff.mp member).imp all.present
        intro rest
        show pending ∈ (Function.update state.connection connection _ connection).pending
        rwa [Function.update_self]
      · exact .inr (elsewhere same)
  | disconnect receiving why =>
      obtain ⟨rc, failed⟩ := why apart.unused
      obtain ⟨after, succeeded⟩ := accounted.import_succeeds sound receiving
      rw [succeeded] at failed
      cases failed
  | restart stops =>
      have ended (stop : StopsProcess state action) :
          Present state.restarted.db pending.1 pending.2 ∨
            pending ∈ (state.restarted.connection connection).pending := by
        rw [apart.ended stop connection] at member
        cases member
      cases stops with
      | restart => exact ended trivial
      | @takeId caller url called =>
          apply ended
          exact congrArg Caller.now called
      | finish fetched faulty =>
          obtain ⟨after, succeeded⟩ := accounted.work_succeeds sound fetched
          rw [succeeded] at faulty
          cases faulty
      | importBatch receiving faulty =>
          obtain ⟨after, succeeded⟩ := accounted.import_succeeds sound receiving
          rw [succeeded] at faulty
          cases faulty
  | _ => exact .inr member

/-- What was answered is in the table. -/
theorem Accounted.answered_step (accounted : Accounted state)
    (step : Step strict state action next) {entry : Entry} {newId : ℕ} {res : Response}
    (answered : Event.answered entry newId res ∈ next.history) : Present next.db res newId := by
  have grows := step.grows
  cases step with
  | insert =>
      have old := (List.mem_append.mp answered).resolve_right (by simp)
      exact (accounted.answered old).grows grows
  | answer fetched committed =>
      rcases List.mem_append.mp answered with old | new
      · exact (accounted.answered old).grows grows
      · cases List.mem_singleton.mp new
        exact (workTxn_eq_ok committed).present
  | connect =>
      refine (accounted.answered ((List.mem_append.mp answered).resolve_right fun new => ?_)).grows
        grows
      obtain ⟨sent, -, absurd⟩ := List.mem_map.mp new
      cases absurd
  | _ => exact (accounted.answered answered).grows grows

/-- **Every step keeps it.** -/
theorem Accounted.step (accounted : Accounted state) (sound : Sound state)
    (apart : KeptApart state action) (step : Step strict state action next) :
    Accounted next where
  reserves := accounted.reserves.step (accounted.simulates apart.unused step)
  sourced := accounted.sourced.step step
  sentWellFormed sent := by
    rcases step.sent_cases sent with old | ⟨connection, responses, rfl, member, -⟩
    · exact accounted.sentWellFormed old
    · exact (apart.unused _ member).1
  fetchedWellFormed fetched := by
    rcases step.fetched_cases fetched with old | ⟨fetching, content, rfl, rfl⟩
    · exact accounted.fetchedWellFormed old
    · exact (apart.unused _ (congrArg Worker.crawl fetching)).1
  sent sent := by
    rcases step.sent_cases sent with old | ⟨connection, responses, -, member, receiving⟩
    · rcases accounted.sent old with present | ⟨connection, member⟩
      · exact .inl (present.grows step.grows)
      · exact (accounted.pending_step sound apart step member).imp_right fun kept =>
          ⟨connection, kept⟩
    · exact .inr ⟨connection, receiving ▸ member⟩
  answered := accounted.answered_step step

end Steps

theorem accounted_start (strict : Bool) (workers : ℕ) : Accounted (server strict workers).start where
  reserves := by
    have nothing {source : ℕ ⊕ Fin workers} {key : ℕ × ℕ}
        (reserved : key ∈ (server strict workers).start.reservations.reserved source) : False := by
      rcases source with connection | worker
      · obtain ⟨pending, member, -⟩ := reserved
        cases member
      · cases reserved
    exact ⟨fun reserved => (nothing reserved).elim, fun reserved => (nothing reserved).elim⟩
  sourced := sourced_start strict workers
  sentWellFormed sent := by cases sent
  fetchedWellFormed fetched := by cases fetched
  sent sent := by cases sent
  answered answered := by cases answered

/-- **Imports lose nothing while their keys are unused.** Every time and position that is
sent, and every time and id of a crawl, is unused; then the next batch of a connection
and the next transaction of a worker find their keys free and are stored, every response
that was sent is in the table or still on its way, every crawl that was answered is in the
table, and what is in the table stays as it is. -/
theorem imports_kept_of_unused {strict : Bool} {workers : ℕ} {state : State workers}
    (reached : (server strict workers).Reaches KeptApart state) :
    (∀ connection id responses, state.connection connection = .receiving id responses →
      (∀ pending ∈ responses.zipIdx id,
        Key.timeIDToResponse pending.1.time pending.2 ∉ state.db) ∧
      ∃ nextId after, importTxn (responses.take responseBatchSize) id state.db =
        (.ok nextId, after)) ∧
    (∀ worker entry newId res, state.worker worker = .fetched entry newId res →
      ∃ after, workTxn strict entry res newId state.db = (.ok (), after)) ∧
    (∀ position res, Event.sent position res ∈ state.history → Present state.db res position ∨
      ∃ connection, (res, position) ∈ (state.connection connection).pending) ∧
    ((∀ connection, state.connection connection = .closed) →
      ∀ position res, Event.sent position res ∈ state.history → Present state.db res position) ∧
    (∀ entry newId res, Event.answered entry newId res ∈ state.history →
      Present state.db res newId) ∧
    ∀ action next, (server strict workers).step state action = some next →
      ∀ time id val, state.db.lookup (.timeIDToResponse time id) = some val →
        next.db.lookup (.timeIDToResponse time id) = some val := by
  have sound := sound_of_reaches reached
  have accounted : Accounted state := invariant_of_reaches (accounted_start strict workers)
    (fun sound accounted apart step => accounted.step sound apart step) reached
  refine ⟨?_, ?_, ?_, ?_, ?_, ?_⟩
  · intro connection id responses receiving
    refine ⟨fun pending member => ?_, ?_⟩
    · have onItsWay : pending ∈ (state.connection connection).pending := by
        rw [receiving]
        exact member
      exact accounted.pending_fresh onItsWay
    · obtain ⟨after, succeeded⟩ := accounted.import_succeeds sound receiving
      exact ⟨_, after, succeeded⟩
  · intro worker entry newId res fetched
    exact accounted.work_succeeds sound fetched
  · intro position res sent
    exact accounted.sent sent
  · intro closed position res sent
    refine (accounted.sent sent).resolve_right ?_
    rintro ⟨connection, member⟩
    rw [closed connection] at member
    cases member
  · intro entry newId res answered
    exact accounted.answered answered
  · intro action next enabled time id val
    exact (step_of_eq_some enabled).grows.response

/-- Two pages with their own times, and a crawl in between. -/
def importApart (worker : Fin 16) : List (Action 16) :=
  [.connect 0 [urlFetch 1000 "http://a.b/".toList .empty], .tick 2000,
    .connect 1 [urlFetch 1001 "http://b.c/".toList .empty],
    .call 0 "http://c.d/".toList, .takeId 0, .transact 0 false, .lock worker, .peek worker false,
    .claim worker, .allocate worker, .fetch worker .empty, .importBatch 1 false,
    .finish worker none, .importBatch 0 false]

/-- Two imports and a crawl that are all stored. -/
theorem imports_kept_of_unused_two_imports : ∃ state, (server false 16).Reaches KeptApart state ∧
    state.history.filterMap Event.sentKey = [(1000, 0), (1001, 0)] ∧
    state.history.filterMap Event.storedKey = [(2000, 1)] ∧
    ∀ position res, Event.sent position res ∈ state.history → Present state.db res position ∨
      ∃ connection, (res, position) ∈ (state.connection connection).pending := by
  have computed : ((server false 16).run
      (fun state action => KeysUnused state action ∧ ¬ StopsProcess state action)
      (server false 16).start (importApart 3)).map
      (fun state => decide (state.history.filterMap Event.sentKey = [(1000, 0), (1001, 0)] ∧
        state.history.filterMap Event.storedKey = [(2000, 1)])) = some true := by
    decide +kernel
  obtain ⟨state, reached, tested⟩ := Machine.reaches_of_run computed
  obtain ⟨sent, stored⟩ := of_decide_eq_true tested
  have apart : (server false 16).Reaches KeptApart state :=
    reached.mono fun _ _ allowed => ⟨allowed.1, fun stops => absurd stops allowed.2⟩
  exact ⟨state, apart, sent, stored, (imports_kept_of_unused apart).2.2.1⟩

/-! ## Imports that collide -/

/-- Only the first connections are used. -/
def ConnectsBelow {workers : ℕ} (bound : ℕ) : Action workers → Prop
  | .connect connection _ => connection < bound
  | _ => True

instance {workers : ℕ} (bound : ℕ) (action : Action workers) :
    Decidable (ConnectsBelow bound action) := by
  induction action using Action.casesOn <;>
    first | exact .isTrue trivial | exact inferInstanceAs (Decidable (_ < _))

/-- The other connections are closed. -/
theorem closed_of_reaches {workers : ℕ} {strict : Bool} {state : State workers}
    {bound connection : ℕ} (beyond : bound ≤ connection)
    (reached : (server strict workers).Reaches (fun _ action => ConnectsBelow bound action) state) :
    state.connection connection = .closed := by
  refine @invariant_of_reaches _ _ _ _ (fun state => state.connection connection = .closed) rfl ?_
    reached
  intro before action after _ closed below step
  have unused {changed id : ℕ} {responses : List Response} {value : Connection}
      (receiving : before.connection changed = .receiving id responses) :
      Function.update before.connection changed value connection = .closed := by
    rw [Function.update_of_ne]
    · exact closed
    · rintro rfl
      rw [closed] at receiving
      cases receiving
  cases step with
  | connect => exact (Function.update_of_ne (below.trans_le beyond).ne' _ _).trans closed
  | importBatch receiving | disconnect receiving => exact unused receiving
  | restart => rfl
  | _ => exact closed

/-- The response of the first client. -/
def firstImport : List Response := [urlFetch 1000 "http://a.b/".toList .empty]

/-- The responses of the second client, one of the same time. -/
def secondImport : List Response :=
  [urlFetch 1000 "http://b.c/".toList .empty, urlFetch 1001 "http://c.d/".toList .empty]

/-- **Two imports collide.** Both clients send well-formed responses, no operation fails
for another reason, and both connections end; what the second has sent is not in the
table. -/
theorem imports_collide : ∃ state, (server false 16).Reaches
    (fun state action => ClockForward state action ∧ Undisturbed action) state ∧
    (∀ connection, state.connection connection = .closed) ∧
    (∀ position res, Event.sent position res ∈ state.history → res.WellFormed ∧ res.time < 2 ^ 48) ∧
    (∃ position res, Event.sent position res ∈ state.history ∧ ¬ Present state.db res position) ∧
    ∀ sent ∈ secondImport.zipIdx,
      Event.sent sent.2 sent.1 ∈ state.history ∧ ¬ Present state.db sent.1 sent.2 := by
  have computed : ((server false 16).run
      (fun state action => (ClockForward state action ∧ Undisturbed action) ∧ ConnectsBelow 2 action)
      (server false 16).start
      [.connect 0 firstImport, .connect 1 secondImport, .importBatch 0 false,
        .importBatch 1 false]).map
      (fun state => decide (state.connection 0 = .closed ∧ state.connection 1 = .closed) &&
        decide (state.history = (firstImport.zipIdx ++ secondImport.zipIdx).map
          fun sent => Event.sent sent.2 sent.1) &&
        decide (∀ sent ∈ secondImport.zipIdx, ¬ Present state.db sent.1 sent.2)) = some true := by
    decide +kernel
  obtain ⟨state, reached, tested⟩ := Machine.reaches_of_run computed
  simp only [Bool.and_eq_true, decide_eq_true_eq] at tested
  obtain ⟨⟨closed, history⟩, lost⟩ := tested
  have wellFormed : ∀ sent ∈ firstImport.zipIdx ++ secondImport.zipIdx,
      sent.1.WellFormed ∧ sent.1.time < 2 ^ 48 := by
    decide +kernel
  have sent (pending : Response × ℕ) (member : pending ∈ secondImport.zipIdx) :
      Event.sent pending.2 pending.1 ∈ state.history := by
    rw [history]
    exact List.mem_map.mpr ⟨pending, List.mem_append_right _ member, rfl⟩
  refine ⟨state, reached.mono fun _ _ allowed => allowed.1, ?_, ?_, ?_, ?_⟩
  · intro connection
    match connection with
    | 0 => exact closed.1
    | 1 => exact closed.2
    | _ + 2 => exact closed_of_reaches (by omega) (reached.mono fun _ _ allowed => allowed.2)
  · intro position res member
    rw [history] at member
    obtain ⟨pending, listed, same⟩ := List.mem_map.mp member
    cases same
    exact wellFormed pending listed
  · exact ⟨_, _, sent _ (.head _), lost _ (.head _)⟩
  · intro pending member
    exact ⟨sent pending member, lost _ member⟩

end HashArchive.Queue
