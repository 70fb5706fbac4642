import HashArchive.Foundations.Machine
import HashArchive.Queue.Operations

/-!
# The server as a machine

Clients that enqueue URLs, workers that crawl them, and connections that import
responses run side by side over one store. An action of the machine is what one of
them does between two points where the others can run: reading the clock, taking an
id, a whole write transaction, a broadcast, and for a worker each part of
`queue_work`. Every call of the store can fail. The process can be stopped and
started again at any time, and a failed assertion stops it; the store keeps what was
committed, everything else starts over.

The state carries a history of what was committed and sent, and counts the starts of
the process. No function reads them.

Ids are natural numbers: a run in which a counter passes `2 ^ 64` is not followed
around.
-/

set_option autoImplicit false

namespace HashArchive.Queue

open Db Hash Url

/-! ## Transactions -/

/-- The transaction of `queue_work`. -/
def workTxn (strict : Bool) (entry : Entry) (res : Response) (newId : ℕ) : DbTxn Unit := do
  queueRemove strict entry
  hxResponseAdd res newId

/-- The calls of `connection` for the responses of a batch; the next id. -/
def importTxn : List Response → ℕ → DbTxn ℕ
  | [], id => pure id
  | res :: responses, id => do
    hxResponseAdd res id
    importTxn responses (id + 1)

/-- `RESPONSE_BATCH_SIZE`. -/
def responseBatchSize : ℕ := 50

/-! ## Fetching -/

/-- What a fetch brings back, or the status it fails with. -/
structure Content where
  status : ℤ
  type : Str
  length : ℕ
  digests : HashAlgo → List UInt8
  type_lt : type.length < typeMax

/-- `url_fetch`, at a time. The fields it does not set are not read before the
response is stored. -/
def urlFetch (time : ℕ) (url : Str) (content : Content) : Response where
  time := time
  id := 0
  url := strlcpy url uriMax
  status := content.status
  type := content.type
  length := content.length
  digests := content.digests
  next := none
  prev := none
  flags := 0
  url_lt := length_strlcpy_lt uriMax_pos
  type_lt := content.type_lt

/-! ## States -/

/-- Where a worker is in `queue_work`. -/
inductive Worker where
  | idle
  /-- Holds `work_lock` and is about to peek. -/
  | locked
  /-- Has found an entry in its snapshot and is about to move the cursor. -/
  | peeked (entry : Entry)
  /-- Has found nothing and is about to wait. -/
  | notFound
  /-- Registered on `work_cond`. -/
  | waiting
  /-- Woken, without `work_lock`. -/
  | woken
  /-- Has an entry, and no id yet. -/
  | claimed (entry : Entry)
  | fetching (entry : Entry) (newId : ℕ)
  | fetched (entry : Entry) (newId : ℕ) (res : Response)
deriving DecidableEq

/-- Where a caller is in `queue_add`. -/
inductive Caller where
  | idle
  /-- Has read the clock. -/
  | called (now : ℕ) (url : Str)
  /-- Has taken an id. -/
  | numbered (surt : Str) (entry : Entry)
  /-- Has committed and is about to broadcast. -/
  | committed
deriving DecidableEq

/-- Where an import connection is: the next id, and what its client still sends. -/
inductive Connection where
  | closed
  | receiving (id : ℕ) (responses : List Response)
deriving DecidableEq

/-- What the history records. -/
inductive Event where
  /-- An entry was committed to the queue. -/
  | inserted (entry : Entry)
  /-- An entry was removed and its response stored, in one transaction. -/
  | answered (entry : Entry) (newId : ℕ) (res : Response)
  /-- A client sends a response in some position of its stream. -/
  | sent (position : ℕ) (res : Response)
deriving DecidableEq

/-- The state of the server and its clients. -/
structure State (workers : ℕ) where
  db : Database
  clock : ℕ
  currentId : ℕ
  workTime : ℕ
  workId : ℕ
  workLock : Option (Fin workers)
  worker : Fin workers → Worker
  caller : ℕ → Caller
  connection : ℕ → Connection
  history : List Event
  starts : ℕ

namespace State

variable {workers : ℕ} (state : State workers)

/-- The cursor. -/
def cursor : ℕ ×ₗ ℕ := toLex (state.workTime, state.workId)

def setWorker (worker : Fin workers) (value : Worker) : State workers :=
  { state with worker := Function.update state.worker worker value }

def setCaller (caller : ℕ) (value : Caller) : State workers :=
  { state with caller := Function.update state.caller caller value }

def setConnection (connection : ℕ) (value : Connection) : State workers :=
  { state with connection := Function.update state.connection connection value }

/-- The process starts over on the same store. -/
def restarted : State workers := { state with
  currentId := 0
  workTime := 0
  workId := 0
  workLock := none
  worker := fun _ => .idle
  caller := fun _ => .idle
  connection := fun _ => .closed
  starts := state.starts + 1 }

end State

/-! ## Actions -/

/-- Where an iteration of `queue_work` fails after the fetch. -/
inductive FailurePoint where
  | dbOpen
  | txnBegin
  | queueRemove
  | responseAdd
  | txnCommit
deriving DecidableEq

/-- What can happen next. -/
inductive Action (workers : ℕ) where
  | tick (time : ℕ)
  | call (caller : ℕ) (url : Str)
  | takeId (caller : ℕ)
  | transact (caller : ℕ) (failing : Bool)
  | broadcast (caller : ℕ)
  | lock (worker : Fin workers)
  | peek (worker : Fin workers) (failing : Bool)
  | claim (worker : Fin workers)
  | wait (worker : Fin workers) (failing : Bool)
  | allocate (worker : Fin workers)
  | fetch (worker : Fin workers) (content : Content)
  | finish (worker : Fin workers) (failing : Option FailurePoint)
  | connect (connection : ℕ) (responses : List Response)
  | importBatch (connection : ℕ) (failing : Bool)
  | restart

namespace State

variable {workers : ℕ} (state : State workers)

/-- A client calls `queue_add` with the time and a URL of the length it may have. -/
def call (caller : ℕ) (url : Str) : Option (State workers) :=
  match state.caller caller with
  | .idle => if url.length < uriMax then state.setCaller caller (.called state.clock url) else none
  | _ => none

/-- `queue_add`, up to the allocation of the id. -/
def takeId (caller : ℕ) : Option (State workers) :=
  match state.caller caller with
  | .called now url =>
    if now = 0 then state.restarted
    else
      match urlNormalizeSurt url uriMax with
      | .error _ => state.setCaller caller .idle
      | .ok surt => some { state.setCaller caller (.numbered surt ⟨now, state.currentId + 1, url, []⟩)
          with currentId := state.currentId + 1 }
  | _ => none

/-- The transaction of `queue_add`. -/
def transact (caller : ℕ) (failing : Bool) : Option (State workers) :=
  match state.caller caller with
  | .numbered surt entry =>
    if failing then state.setCaller caller .idle
    else
      match queueAddTxn surt entry state.db with
      | (.ok true, after) => some { state.setCaller caller .committed with
          db := after
          history := state.history ++ [.inserted entry] }
      | (.error (.fault _), _) => state.restarted
      | _ => state.setCaller caller .idle
  | _ => none

/-- `async_cond_broadcast(work_cond)` and the return of `queue_add`. -/
def broadcast (caller : ℕ) : Option (State workers) :=
  match state.caller caller with
  | .committed => some { state.setCaller caller .idle with
      worker := fun worker => if state.worker worker = .waiting then .woken else state.worker worker }
  | _ => none

/-- A worker acquires `work_lock`. -/
def lock (worker : Fin workers) : Option (State workers) :=
  if state.workLock = none ∧ (state.worker worker = .idle ∨ state.worker worker = .woken) then
    some { state.setWorker worker .locked with workLock := some worker }
  else none

/-- A worker gives up and releases `work_lock`. -/
def giveUp (worker : Fin workers) : State workers :=
  { state.setWorker worker .idle with workLock := none }

/-- `queue_peek`, up to the assignments to the cursor. -/
def peek (worker : Fin workers) (failing : Bool) : Option (State workers) :=
  match state.worker worker with
  | .locked =>
    if failing then state.giveUp worker
    else
      match (queuePeek state.workTime state.workId state.db).1 with
      | .ok (some entry) => state.setWorker worker (.peeked entry)
      | .ok none => state.setWorker worker .notFound
      | .error _ => state.restarted
  | _ => none

/-- The cursor is moved and `work_lock` released. -/
def claim (worker : Fin workers) : Option (State workers) :=
  match state.worker worker with
  | .peeked entry => some { state.setWorker worker (.claimed entry) with
      workTime := entry.time
      workId := entry.id
      workLock := none }
  | _ => none

/-- `async_cond_wait(work_cond, work_lock)`. -/
def wait (worker : Fin workers) (failing : Bool) : Option (State workers) :=
  match state.worker worker with
  | .notFound =>
    if failing then state.giveUp worker
    else some { state.setWorker worker .waiting with workLock := none }
  | _ => none

/-- `new_id = current_id++`. -/
def allocate (worker : Fin workers) : Option (State workers) :=
  match state.worker worker with
  | .claimed entry => some { state.setWorker worker (.fetching entry state.currentId) with
      currentId := state.currentId + 1 }
  | _ => none

/-- `url_fetch` reads the clock and brings back a content. -/
def fetch (worker : Fin workers) (content : Content) : Option (State workers) :=
  match state.worker worker with
  | .fetching entry newId =>
    state.setWorker worker (.fetched entry newId (urlFetch state.clock entry.url content))
  | _ => none

/-- The transaction of `queue_work` and its cleanup. Failing at a point, or with an
error, aborts the transaction. -/
def finish (strict : Bool) (worker : Fin workers) (failing : Option FailurePoint) :
    Option (State workers) :=
  match state.worker worker with
  | .fetched entry newId res =>
    if failing ≠ none then state.setWorker worker .idle
    else
      match Txn.commit (workTxn strict entry res newId) state.db with
      | (.ok _, after) => some { state.setWorker worker .idle with
          db := after
          history := state.history ++ [.answered entry newId res] }
      | (.error (.code _), _) => state.setWorker worker .idle
      | (.error (.fault _), _) => state.restarted
  | _ => none

/-- A client connects and will send some responses. -/
def connect (connection : ℕ) (responses : List Response) : Option (State workers) :=
  match state.connection connection with
  | .closed => some { state.setConnection connection (.receiving 0 responses) with
      history := state.history ++
        (responses.zipIdx.map fun (res, position) => Event.sent position res) }
  | .receiving _ _ => none

/-- Where a connection is after a batch. The last batch has fewer responses than fit. -/
def afterBatch (nextId : ℕ) (responses : List Response) : Connection :=
  if responses.length < responseBatchSize then .closed
  else .receiving nextId (responses.drop responseBatchSize)

/-- One batch of `connection`. -/
def importBatch (connection : ℕ) (failing : Bool) : Option (State workers) :=
  match state.connection connection with
  | .receiving id responses =>
    if failing then state.setConnection connection .closed
    else
      match Txn.commit (importTxn (responses.take responseBatchSize) id) state.db with
      | (.ok nextId, after) =>
        some { state.setConnection connection (afterBatch nextId responses) with db := after }
      | (.error (.code _), _) => state.setConnection connection .closed
      | (.error (.fault _), _) => state.restarted
  | .closed => none

/-- One action. -/
def step (strict : Bool) : Action workers → Option (State workers)
  | .tick time => some { state with clock := time }
  | .call caller url => state.call caller url
  | .takeId caller => state.takeId caller
  | .transact caller failing => state.transact caller failing
  | .broadcast caller => state.broadcast caller
  | .lock worker => state.lock worker
  | .peek worker failing => state.peek worker failing
  | .claim worker => state.claim worker
  | .wait worker failing => state.wait worker failing
  | .allocate worker => state.allocate worker
  | .fetch worker content => state.fetch worker content
  | .finish worker failing => state.finish strict worker failing
  | .connect connection responses => state.connect connection responses
  | .importBatch connection failing => state.importBatch connection failing
  | .restart => some state.restarted

end State

/-- The server with some number of workers, on an empty store. Whether deleting a key
that does not exist is an error is up to the store. -/
def server (strict : Bool) (workers : ℕ) : Machine (State workers) (Action workers) where
  start := {
    db := ∅
    clock := 0
    currentId := 0
    workTime := 0
    workId := 0
    workLock := none
    worker := fun _ => .idle
    caller := fun _ => .idle
    connection := fun _ => .closed
    history := []
    starts := 0 }
  step state action := state.step strict action

/-! ## Runs -/

/-- The clock does not run backwards. -/
def ClockForward {workers : ℕ} (state : State workers) : Action workers → Prop
  | .tick time => state.clock ≤ time
  | _ => True

/-- No operation fails and the process goes on. -/
def Undisturbed {workers : ℕ} : Action workers → Prop
  | .transact _ failing | .peek _ failing | .wait _ failing | .importBatch _ failing => failing = false
  | .finish _ failing => failing = none
  | .restart => False
  | _ => True

instance {workers : ℕ} (action : Action workers) : Decidable (Undisturbed action) := by
  induction action using Action.casesOn <;>
    first | exact .isTrue trivial | exact .isFalse id | exact inferInstanceAs (Decidable (_ = _))

instance {workers : ℕ} (state : State workers) (action : Action workers) :
    Decidable (ClockForward state action) := by
  induction action using Action.casesOn <;>
    first | exact .isTrue trivial | exact inferInstanceAs (Decidable (_ ≤ _))

/-- What a fetch of an empty page brings back. -/
def Content.empty : Content where
  status := 200
  type := []
  length := 0
  digests := fun _ => []
  type_lt := typeMax_pos

/-! ## What an action does -/

/-- When an action stops the process. -/
inductive Stops {workers : ℕ} (strict : Bool) (state : State workers) : Action workers → Prop where
  | restart : Stops strict state .restart
  | takeId {caller : ℕ} {url : Str} (called : state.caller caller = .called 0 url) :
      Stops strict state (.takeId caller)
  | finish {worker : Fin workers} {entry : Entry} {newId : ℕ} {res : Response} {fault : Fault}
      (fetched : state.worker worker = .fetched entry newId res)
      (faulty : (workTxn strict entry res newId state.db).1 = .error (.fault fault)) :
      Stops strict state (.finish worker none)
  | importBatch {connection id : ℕ} {responses : List Response} {fault : Fault}
      (receiving : state.connection connection = .receiving id responses)
      (faulty : (importTxn (responses.take responseBatchSize) id state.db).1 =
        .error (.fault fault)) :
      Stops strict state (.importBatch connection false)

/-- **What each action does.** -/
inductive Step {workers : ℕ} (strict : Bool) (state : State workers) :
    Action workers → State workers → Prop where
  | tick (time : ℕ) : Step strict state (.tick time) { state with clock := time }
  | call {caller : ℕ} {url : Str} (idle : state.caller caller = .idle) (fits : url.length < uriMax) :
      Step strict state (.call caller url) (state.setCaller caller (.called state.clock url))
  | number {caller now : ℕ} {url surt : Str} (called : state.caller caller = .called now url)
      (positive : now ≠ 0) (normalized : urlNormalizeSurt url uriMax = .ok surt) :
      Step strict state (.takeId caller)
        { state.setCaller caller (.numbered surt ⟨now, state.currentId + 1, url, []⟩) with
          currentId := state.currentId + 1 }
  | leave {action : Action workers} {caller : ℕ} (waits : state.caller caller ≠ .committed) :
      Step strict state action (state.setCaller caller .idle)
  | insert {caller : ℕ} {surt : Str} {entry : Entry} {after : Database}
      (numbered : state.caller caller = .numbered surt entry)
      (inserted : Inserted surt entry state.db after) :
      Step strict state (.transact caller false) { state.setCaller caller .committed with
        db := after
        history := state.history ++ [.inserted entry] }
  | broadcast {caller : ℕ} (committed : state.caller caller = .committed) :
      Step strict state (.broadcast caller) { state.setCaller caller .idle with
        worker := fun worker =>
          if state.worker worker = .waiting then .woken else state.worker worker }
  | lock {worker : Fin workers} (free : state.workLock = none)
      (ready : state.worker worker = .idle ∨ state.worker worker = .woken) :
      Step strict state (.lock worker)
        { state.setWorker worker .locked with workLock := some worker }
  | giveUp {action : Action workers} {worker : Fin workers}
      (holds : state.worker worker = .locked ∨ state.worker worker = .notFound) :
      Step strict state action (state.giveUp worker)
  | find {worker : Fin workers} {entry : Entry} (locked : state.worker worker = .locked)
      (found : (queuePeek state.workTime state.workId state.db).1 = .ok (some entry)) :
      Step strict state (.peek worker false) (state.setWorker worker (.peeked entry))
  | miss {worker : Fin workers} (locked : state.worker worker = .locked)
      (nothing : (queuePeek state.workTime state.workId state.db).1 = .ok none) :
      Step strict state (.peek worker false) (state.setWorker worker .notFound)
  | claim {worker : Fin workers} {entry : Entry} (peeked : state.worker worker = .peeked entry) :
      Step strict state (.claim worker) { state.setWorker worker (.claimed entry) with
        workTime := entry.time
        workId := entry.id
        workLock := none }
  | wait {worker : Fin workers} (notFound : state.worker worker = .notFound) :
      Step strict state (.wait worker false)
        { state.setWorker worker .waiting with workLock := none }
  | allocate {worker : Fin workers} {entry : Entry} (claimed : state.worker worker = .claimed entry) :
      Step strict state (.allocate worker)
        { state.setWorker worker (.fetching entry state.currentId) with
          currentId := state.currentId + 1 }
  | fetch {worker : Fin workers} {entry : Entry} {newId : ℕ} (content : Content)
      (fetching : state.worker worker = .fetching entry newId) :
      Step strict state (.fetch worker content) (state.setWorker worker
        (.fetched entry newId (urlFetch state.clock entry.url content)))
  | answer {worker : Fin workers} {entry : Entry} {newId : ℕ} {res : Response} {done : Unit}
      {after : Database} (fetched : state.worker worker = .fetched entry newId res)
      (committed : workTxn strict entry res newId state.db = (.ok done, after)) :
      Step strict state (.finish worker none) { state.setWorker worker .idle with
        db := after
        history := state.history ++ [.answered entry newId res] }
  | fail {worker : Fin workers} {failing : Option FailurePoint} {entry : Entry} {newId : ℕ}
      {res : Response} (fetched : state.worker worker = .fetched entry newId res)
      (why : failing = none → ∃ rc, (workTxn strict entry res newId state.db).1 = .error (.code rc)) :
      Step strict state (.finish worker failing) (state.setWorker worker .idle)
  | connect {connection : ℕ} {responses : List Response}
      (closed : state.connection connection = .closed) :
      Step strict state (.connect connection responses)
        { state.setConnection connection (.receiving 0 responses) with
          history := state.history ++
            (responses.zipIdx.map fun (res, position) => Event.sent position res) }
  | importBatch {connection id nextId : ℕ} {responses : List Response} {after : Database}
      (receiving : state.connection connection = .receiving id responses)
      (committed : importTxn (responses.take responseBatchSize) id state.db = (.ok nextId, after)) :
      Step strict state (.importBatch connection false)
        { state.setConnection connection (State.afterBatch nextId responses) with db := after }
  | disconnect {connection id : ℕ} {failing : Bool} {responses : List Response}
      (receiving : state.connection connection = .receiving id responses)
      (why : failing = false →
        ∃ rc, (importTxn (responses.take responseBatchSize) id state.db).1 = .error (.code rc)) :
      Step strict state (.importBatch connection failing) (state.setConnection connection .closed)
  | restart {action : Action workers} (stops : Stops strict state action) :
      Step strict state action state.restarted

section Cases

variable {workers : ℕ} {strict : Bool} {state next : State workers}

theorem takeId_step {caller : ℕ} (taken : state.takeId caller = some next) :
    Step strict state (.takeId caller) next := by
  unfold State.takeId at taken
  split at taken
  case h_1 now url called =>
    split_ifs at taken with zero
    · cases taken
      exact .restart (.takeId (zero ▸ called))
    · split at taken
      case h_1 => cases taken; exact .leave (by simp [called])
      case h_2 surt normalized => cases taken; exact .number called zero normalized
  case h_2 => cases taken

theorem transact_step {caller : ℕ} {failing : Bool}
    (transacted : state.transact caller failing = some next) :
    Step strict state (.transact caller failing) next := by
  unfold State.transact at transacted
  split at transacted
  case h_1 surt entry numbered =>
    split_ifs at transacted with fails
    · cases transacted
      exact .leave (by simp [numbered])
    · obtain rfl : failing = false := by simpa using fails
      rcases queueAddTxn_cases surt entry state.db with ⟨after, done, inserted⟩ | done | done
      · rw [done] at transacted
        cases transacted
        exact .insert numbered inserted
      · rw [done] at transacted
        cases transacted
        exact .leave (by simp [numbered])
      · rw [done] at transacted
        cases transacted
        exact .leave (by simp [numbered])
  case h_2 => cases transacted

theorem peek_step {worker : Fin workers} {failing : Bool}
    (peeked : state.peek worker failing = some next) :
    Step strict state (.peek worker failing) next := by
  unfold State.peek at peeked
  split at peeked
  case h_1 locked =>
    split_ifs at peeked with fails
    · cases peeked
      exact .giveUp (.inl locked)
    · obtain rfl : failing = false := by simpa using fails
      split at peeked
      case h_1 entry found => cases peeked; exact .find locked found
      case h_2 nothing => cases peeked; exact .miss locked nothing
      case h_3 failure failed => exact absurd failed queuePeek_ne_error
  case h_2 => cases peeked

theorem wait_step {worker : Fin workers} {failing : Bool}
    (waited : state.wait worker failing = some next) :
    Step strict state (.wait worker failing) next := by
  unfold State.wait at waited
  split at waited
  case h_1 notFound =>
    split_ifs at waited with fails
    · cases waited
      exact .giveUp (.inr notFound)
    · obtain rfl : failing = false := by simpa using fails
      cases waited
      exact .wait notFound
  case h_2 => cases waited

theorem finish_step {worker : Fin workers} {failing : Option FailurePoint}
    (finished : state.finish strict worker failing = some next) :
    Step strict state (.finish worker failing) next := by
  unfold State.finish at finished
  split at finished
  case h_1 entry newId res fetched =>
    by_cases fails : failing = none
    · subst fails
      rw [if_neg (by simp)] at finished
      cases outcome : workTxn strict entry res newId state.db with
      | mk result after =>
          rcases result with (rc | fault) | done
          · rw [Txn.commit_of_error outcome] at finished
            cases finished
            exact .fail fetched fun _ => ⟨rc, congrArg Prod.fst outcome⟩
          · rw [Txn.commit_of_error outcome] at finished
            cases finished
            exact .restart (.finish fetched (congrArg Prod.fst outcome))
          · rw [Txn.commit_of_ok outcome] at finished
            cases finished
            exact .answer fetched outcome
    · rw [if_pos fails] at finished
      cases finished
      exact .fail fetched fun none => absurd none fails
  case h_2 => cases finished

theorem importBatch_step {connection : ℕ} {failing : Bool}
    (imported : state.importBatch connection failing = some next) :
    Step strict state (.importBatch connection failing) next := by
  unfold State.importBatch at imported
  split at imported
  case h_1 id responses receiving =>
    split_ifs at imported with fails
    · cases imported
      exact .disconnect receiving fun ok => by simp [ok] at fails
    · obtain rfl : failing = false := by simpa using fails
      cases outcome : importTxn (responses.take responseBatchSize) id state.db with
      | mk result after =>
          rcases result with (rc | fault) | nextId
          · rw [Txn.commit_of_error outcome] at imported
            cases imported
            exact .disconnect receiving fun _ => ⟨rc, congrArg Prod.fst outcome⟩
          · rw [Txn.commit_of_error outcome] at imported
            cases imported
            exact .restart (.importBatch receiving (congrArg Prod.fst outcome))
          · rw [Txn.commit_of_ok outcome] at imported
            cases imported
            exact .importBatch receiving outcome
  case h_2 => cases imported

/-- **Every action that is enabled does one of these.** -/
theorem step_of_eq_some {action : Action workers}
    (enabled : (server strict workers).step state action = some next) :
    Step strict state action next := by
  cases action with
  | tick time => cases enabled; exact .tick time
  | call caller url =>
      simp only [server, State.step, State.call] at enabled
      split at enabled
      case h_1 idle =>
        split_ifs at enabled with fits
        cases enabled
        exact .call idle fits
      case h_2 => cases enabled
  | takeId caller => exact takeId_step enabled
  | transact caller failing => exact transact_step enabled
  | broadcast caller =>
      simp only [server, State.step, State.broadcast] at enabled
      split at enabled
      case h_1 committed => cases enabled; exact .broadcast committed
      case h_2 => cases enabled
  | lock worker =>
      simp only [server, State.step, State.lock] at enabled
      split_ifs at enabled with ready
      cases enabled
      exact .lock ready.1 ready.2
  | peek worker failing => exact peek_step enabled
  | claim worker =>
      simp only [server, State.step, State.claim] at enabled
      split at enabled
      case h_1 entry peeked => cases enabled; exact .claim peeked
      case h_2 => cases enabled
  | wait worker failing => exact wait_step enabled
  | allocate worker =>
      simp only [server, State.step, State.allocate] at enabled
      split at enabled
      case h_1 entry claimed => cases enabled; exact .allocate claimed
      case h_2 => cases enabled
  | fetch worker content =>
      simp only [server, State.step, State.fetch] at enabled
      split at enabled
      case h_1 entry newId fetching => cases enabled; exact .fetch content fetching
      case h_2 => cases enabled
  | finish worker failing => exact finish_step enabled
  | connect connection responses =>
      simp only [server, State.step, State.connect] at enabled
      split at enabled
      case h_1 closed => cases enabled; exact .connect closed
      case h_2 => cases enabled
  | importBatch connection failing => exact importBatch_step enabled
  | restart => cases enabled; exact .restart .restart

end Cases

end HashArchive.Queue
