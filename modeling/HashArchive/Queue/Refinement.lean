import HashArchive.Foundations.CursorQueue
import HashArchive.Queue.Mirror

/-!
# The server keeps a cursor queue

What clients and workers do to the queue tables and to the cursor is a run of a
cursor queue (`Sound.simulates`): the entries of the forward table are queued, the
cursor is the pair of `work_time` and `work_id`, a worker that has peeked has found
an entry, and from then on until the end of its iteration it holds it. `work_lock`
is what makes one search go on at a time.

`Sound` collects what every step keeps (`Sound.step`). With it the two queue tables
mirror each other in every reachable state, and a step that neither inserts nor
answers an entry leaves them as they were (`queue_tables_mirror`).
-/

set_option autoImplicit false

namespace HashArchive.Queue

open Db Hash Url

/-! ## The queue in a state -/

/-- The entry a worker has found and not yet claimed. -/
def Worker.found : Worker → Option Entry
  | .peeked entry => some entry
  | _ => none

/-- The entry a worker has claimed. -/
def Worker.held : Worker → Option Entry
  | .claimed entry | .fetching entry _ | .fetched entry _ _ => some entry
  | _ => none

/-- A worker is between acquiring and releasing `work_lock`. -/
def Worker.HoldsLock : Worker → Prop
  | .locked | .peeked _ | .notFound => True
  | _ => False

namespace State

variable {workers : ℕ}

/-- The cursor queue in a state. -/
def view (state : State workers) : CursorQueue Entry (ℕ ×ₗ ℕ) (Fin workers) where
  queued := {entry | Queued state.db entry}
  cursor := state.cursor
  found worker := (state.worker worker).found
  held worker := (state.worker worker).held

/-- Where the cursor starts. -/
def origin : ℕ ×ₗ ℕ := toLex (0, 0)

variable (state : State workers) (worker : Fin workers) (value : Worker)

/-- A step of one worker, in the view. -/
theorem view_setWorker : (state.setWorker worker value).view = { state.view with
    found := Function.update state.view.found worker value.found
    held := Function.update state.view.held worker value.held } := by
  have one (look : Worker → Option Entry) :
      (fun other => look (Function.update state.worker worker value other)) =
        Function.update (fun other => look (state.worker other)) worker (look value) := by
    funext other
    rw [Function.update_apply, Function.update_apply]
    split_ifs <;> rfl
  simp only [view, setWorker, one]
  rfl

/-- A step of one worker that the view does not show. -/
theorem view_setWorker_of_eq (found : value.found = (state.worker worker).found)
    (held : value.held = (state.worker worker).held) :
    (state.setWorker worker value).view = state.view := by
  rw [view_setWorker, found, held]
  show { state.view with
    found := Function.update state.view.found worker (state.view.found worker)
    held := Function.update state.view.held worker (state.view.held worker) } = state.view
  rw [Function.update_eq_self, Function.update_eq_self]

end State

/-! ## What every step keeps -/

/-- What a caller has in hand. -/
def Caller.Ready : Caller → Prop
  | .called _ url => url.length < uriMax
  | .numbered surt entry => entry.Accepted surt
  | _ => True

/-- **What holds in every reachable state.** -/
structure Sound {workers : ℕ} (state : State workers) : Prop where
  lock : ∀ worker, (state.worker worker).HoldsLock ↔ state.workLock = some worker
  callers : ∀ caller, (state.caller caller).Ready
  mirror : Mirror state.db
  agree : TablesAgree state.db
  fetched : ∀ {worker entry newId res}, state.worker worker = .fetched entry newId res →
    res.url = entry.url
  queue : state.view.Sound Entry.position

/-- Which action a step of the queue comes from. -/
inductive Causes {workers : ℕ} (strict : Bool) (state : State workers) :
    Action workers → CursorQueue.Label Entry (Fin workers) → Prop where
  | insert {caller : ℕ} {surt : Str} {entry : Entry} {after : Database}
      (numbered : state.caller caller = .numbered surt entry)
      (inserted : Inserted surt entry state.db after) :
      Causes strict state (.transact caller false) (.insert entry)
  | find (worker : Fin workers) (entry : Entry) :
      Causes strict state (.peek worker false) (.find worker entry)
  | claim (worker : Fin workers) (entry : Entry) :
      Causes strict state (.claim worker) (.claim worker entry)
  | drop {worker : Fin workers} {failing : Option FailurePoint} {entry : Entry} {newId : ℕ}
      {res : Response} (fetched : state.worker worker = .fetched entry newId res)
      (why : failing = none → ∃ rc, (workTxn strict entry res newId state.db).1 = .error (.code rc)) :
      Causes strict state (.finish worker failing) (.drop worker)
  | answer (worker : Fin workers) (entry : Entry) :
      Causes strict state (.finish worker none) (.answer worker entry)
  | reset {action : Action workers} (stops : Stops strict state action) :
      Causes strict state action .reset

/-- A step of the server as the queue sees it. -/
def Refines {workers : ℕ} (strict : Bool) (state : State workers) (action : Action workers)
    (next : State workers) : Prop :=
  next.view = state.view ∨ ∃ label, Causes strict state action label ∧
    CursorQueue.Step Entry.position State.origin state.view label next.view

section Steps

variable {workers : ℕ} {strict : Bool} {state next : State workers} {action : Action workers}

/-- The entries fit the buffers of the workers. -/
theorem Sound.fits (sound : Sound state) {entry : Entry} (queued : Queued state.db entry) :
    entry.url.length < uriMax ∧ entry.client.length < clientMax := by
  obtain ⟨surt, accepted, -⟩ := sound.mirror.forward queued
  exact ⟨accepted.url_lt, by rw [accepted.client_eq]; decide⟩

/-- A caller that has an id has made an entry from its URL. -/
theorem Sound.accepted (sound : Sound state) {caller : ℕ} {surt : Str} {entry : Entry}
    (numbered : state.caller caller = .numbered surt entry) : entry.Accepted surt := by
  have ready := sound.callers caller
  rwa [numbered] at ready

/-- Two workers with the lock are one. -/
theorem Sound.lock_unique (sound : Sound state) {worker other : Fin workers}
    (holds : (state.worker worker).HoldsLock) (holdsOther : (state.worker other).HoldsLock) :
    worker = other :=
  Option.some_inj.mp (((sound.lock worker).mp holds).symm.trans ((sound.lock other).mp holdsOther))

theorem Refines.of_view {view : CursorQueue Entry (ℕ ×ₗ ℕ) (Fin workers)}
    {label : CursorQueue.Label Entry (Fin workers)} (causes : Causes strict state action label)
    (step : CursorQueue.Step Entry.position State.origin state.view label view)
    (shown : next.view = view) : Refines strict state action next :=
  .inr ⟨label, causes, shown ▸ step⟩

/-- An assignment of what is there. -/
theorem update_of_eq {assigned : Fin workers → Option Entry} {worker : Fin workers}
    {value : Option Entry} (same : assigned worker = value) :
    Function.update assigned worker value = assigned := by
  rw [← same, Function.update_eq_self]

/-- **The server refines the cursor queue.** -/
theorem Sound.simulates (sound : Sound state) (step : Step strict state action next) :
    Refines strict state action next := by
  cases step with
  | tick | call | number | leave | connect | disconnect => exact .inl rfl
  | @insert caller surt entry after numbered inserted =>
      have accepted := sound.accepted numbered
      refine .of_view (.insert numbered inserted)
        (.insert (inserted.absent sound.mirror accepted accepted)) ?_
      exact CursorQueue.ext (Set.ext inserted.queued_iff) rfl rfl rfl
  | broadcast committed =>
      refine .inl (CursorQueue.ext rfl rfl ?_ ?_) <;>
      · funext worker
        by_cases waiting : state.worker worker = .waiting
        · simp [State.view, waiting, Worker.found, Worker.held]
        · simp [State.view, waiting]
  | @lock worker free ready =>
      refine .inl (State.view_setWorker_of_eq state worker .locked ?_ ?_) <;>
        rcases ready with ready | ready <;> rw [ready] <;> rfl
  | @giveUp _ worker holds =>
      refine .inl (State.view_setWorker_of_eq state worker .idle ?_ ?_) <;>
        rcases holds with holds | holds <;> rw [holds] <;> rfl
  | @find worker entry locked found =>
      obtain ⟨queued, beyond, first⟩ := queuePeek_eq_some found fun _ => sound.fits
      have alone (other : Fin workers) : state.view.found other = none := by
        cases kept : state.worker other with
        | peeked seen =>
            have same : worker = other :=
              sound.lock_unique (by rw [locked]; trivial) (by rw [kept]; trivial)
            rw [same, kept] at locked
            cases locked
        | _ => exact congrArg Worker.found kept
      have notHeld : state.view.held worker = none := congrArg Worker.held locked
      refine .of_view (.find worker entry) (.find queued beyond first alone) ?_
      rw [State.view_setWorker]
      exact CursorQueue.ext rfl rfl rfl (update_of_eq notHeld)
  | @miss worker locked nothing =>
      refine .inl (State.view_setWorker_of_eq state worker .notFound ?_ ?_) <;> rw [locked] <;> rfl
  | @claim worker entry peeked =>
      have viewed := State.view_setWorker state worker (.claimed entry)
      have found := congrArg CursorQueue.found viewed
      have held := congrArg CursorQueue.held viewed
      refine .of_view (.claim worker entry)
        (.claim (congrArg Worker.found peeked) (congrArg Worker.held peeked)) ?_
      exact CursorQueue.ext rfl rfl found held
  | @wait worker notFound =>
      refine .inl (State.view_setWorker_of_eq state worker .waiting ?_ ?_) <;> rw [notFound] <;> rfl
  | @allocate worker entry claimed =>
      refine .inl (State.view_setWorker_of_eq state worker (.fetching entry state.currentId) ?_ ?_) <;>
        rw [claimed] <;> rfl
  | @fetch worker entry newId content fetching =>
      refine .inl (State.view_setWorker_of_eq state worker (.fetched entry newId _) ?_ ?_) <;>
        rw [fetching] <;> rfl
  | @answer worker entry newId res done after fetched committed =>
      have worked := workTxn_eq_ok committed
      have viewed := State.view_setWorker state worker .idle
      have found := congrArg CursorQueue.found viewed
      have held := congrArg CursorQueue.held viewed
      have notFound : state.view.found worker = none := congrArg Worker.found fetched
      refine .of_view (.answer worker entry) (.answer (congrArg Worker.held fetched)) ?_
      exact CursorQueue.ext (Set.ext worked.queued_iff) rfl (found.trans (update_of_eq notFound)) held
  | @fail worker failing entry newId res fetched why =>
      have notFound : state.view.found worker = none := congrArg Worker.found fetched
      refine .of_view (.drop fetched why) (.drop worker) ?_
      rw [State.view_setWorker]
      exact CursorQueue.ext rfl rfl (update_of_eq notFound) rfl
  | importBatch receiving committed =>
      have same := (importTxn_eq_ok committed).2.sameQueue
      exact .inl (CursorQueue.ext (Set.ext same.queued) rfl rfl rfl)
  | restart stops => exact .inr ⟨.reset, .reset stops, .reset _⟩

/-! ### The lock -/

theorem Sound.lock_of_keep (sound : Sound state) {worker : Fin workers} {value : Worker}
    (keeps : value.HoldsLock ↔ (state.worker worker).HoldsLock) (other : Fin workers) :
    (Function.update state.worker worker value other).HoldsLock ↔ state.workLock = some other := by
  rw [← sound.lock other, Function.update_apply]
  split_ifs with same
  · rw [same, keeps]
  · rfl

theorem Sound.lock_of_release (sound : Sound state) {worker : Fin workers} {value : Worker}
    (holds : (state.worker worker).HoldsLock) (releases : ¬ value.HoldsLock) (other : Fin workers) :
    (Function.update state.worker worker value other).HoldsLock ↔ none = some other := by
  rw [Function.update_apply]
  split_ifs with same
  · simp [releases]
  · refine iff_of_false (fun holdsOther => same ?_) (by simp)
    exact sound.lock_unique holdsOther holds

theorem Sound.lock_step (sound : Sound state) (step : Step strict state action next)
    (worker : Fin workers) : (next.worker worker).HoldsLock ↔ next.workLock = some worker := by
  cases step with
  | tick | call | number | leave | insert | connect | disconnect | importBatch =>
      exact sound.lock worker
  | broadcast =>
      show (if state.worker worker = .waiting then Worker.woken else state.worker worker).HoldsLock ↔
        state.workLock = some worker
      rw [← sound.lock worker]
      by_cases waiting : state.worker worker = .waiting
      · simp [waiting, Worker.HoldsLock]
      · simp [waiting]
  | @lock locker free ready =>
      show (Function.update state.worker locker .locked worker).HoldsLock ↔ some locker = some worker
      rw [Function.update_apply, Option.some_inj, @eq_comm _ locker]
      split_ifs with same
      · exact iff_of_true trivial same
      · rw [sound.lock worker, free]
        exact iff_of_false (by simp) same
  | giveUp holds =>
      refine sound.lock_of_release ?_ ?_ worker
      · rcases holds with holds | holds <;> rw [holds] <;> trivial
      · exact id
  | find locked | miss locked =>
      refine sound.lock_of_keep ?_ worker
      rw [locked]
      rfl
  | claim peeked =>
      refine sound.lock_of_release ?_ ?_ worker
      · rw [peeked]
        trivial
      · exact id
  | wait notFound =>
      refine sound.lock_of_release ?_ ?_ worker
      · rw [notFound]
        trivial
      · exact id
  | allocate free | fetch _ free | answer free | fail free =>
      refine sound.lock_of_keep ?_ worker
      rw [free]
      rfl
  | restart => exact iff_of_false (fun holds => holds) (by simp [State.restarted])

/-! ### Callers and workers -/

theorem Sound.callers_step (sound : Sound state) (step : Step strict state action next)
    (caller : ℕ) : (next.caller caller).Ready := by
  have assigned {changed : ℕ} {value : Caller} (ready : value.Ready) :
      (Function.update state.caller changed value caller).Ready := by
    rw [Function.update_apply]
    split_ifs
    · exact ready
    · exact sound.callers caller
  cases step with
  | call idle fits => exact assigned fits
  | @number changed now url surt called positive normalized =>
      have fits := sound.callers changed
      rw [called] at fits
      exact assigned ⟨normalized, fits, rfl, Nat.pos_of_ne_zero positive, Nat.succ_pos _⟩
  | leave | insert | broadcast => exact assigned trivial
  | restart => trivial
  | _ => exact sound.callers caller

/-- An entry that a worker holds is queued. -/
theorem Sound.held_queued (sound : Sound state) {worker : Fin workers} {entry : Entry}
    (held : (state.worker worker).held = some entry) : Queued state.db entry :=
  sound.queue.held_queued held

/-- How a worker comes to have fetched a response. -/
theorem Step.fetched_cases (step : Step strict state action next) {worker : Fin workers}
    {entry : Entry} {newId : ℕ} {res : Response}
    (fetched : next.worker worker = .fetched entry newId res) :
    state.worker worker = .fetched entry newId res ∨
      state.worker worker = .fetching entry newId ∧ ∃ content, action = .fetch worker content ∧
        res = urlFetch state.clock entry.url content := by
  have assigned {changed : Fin workers} {value : Worker} (other : value ≠ .fetched entry newId res)
      (now : Function.update state.worker changed value worker = .fetched entry newId res) :
      state.worker worker = .fetched entry newId res := by
    rw [Function.update_apply] at now
    split_ifs at now
    · exact absurd now other
    · exact now
  cases step with
  | tick | call | number | leave | insert | connect | disconnect | importBatch => exact .inl fetched
  | broadcast =>
      by_cases waiting : state.worker worker = .waiting <;> simp [waiting] at fetched
      exact .inl fetched
  | @fetch changed queued oldId content fetching =>
      change Function.update state.worker changed _ worker = _ at fetched
      rw [Function.update_apply] at fetched
      split_ifs at fetched with same
      · cases fetched
        exact .inr ⟨same ▸ fetching, content, same ▸ rfl, rfl⟩
      · exact .inl fetched
  | restart => cases fetched
  | _ => exact .inl (assigned (fun same => by cases same) fetched)

theorem Sound.fetched_step (sound : Sound state) (step : Step strict state action next)
    {worker : Fin workers} {entry : Entry} {newId : ℕ} {res : Response}
    (fetched : next.worker worker = .fetched entry newId res) : res.url = entry.url := by
  rcases step.fetched_cases fetched with before | ⟨fetching, content, -, rfl⟩
  · exact sound.fetched before
  · have queued := sound.held_queued (congrArg Worker.held fetching)
    exact strlcpy_of_length_lt (sound.fits queued).1

/-! ### The tables -/

theorem Sound.mirror_step (sound : Sound state) (step : Step strict state action next) :
    Mirror next.db := by
  cases step with
  | insert numbered inserted => exact sound.mirror.insert (sound.accepted numbered) inserted
  | answer fetched committed =>
      have queued := sound.held_queued (congrArg Worker.held fetched)
      exact (workTxn_eq_ok committed).mirror sound.mirror queued
  | importBatch receiving committed =>
      exact sound.mirror.congr (importTxn_eq_ok committed).2.sameQueue
  | _ => exact sound.mirror

/-- Responses that are stored stay stored. -/
theorem Step.grows (step : Step strict state action next) : Grows state.db next.db := by
  cases step with
  | insert numbered inserted => exact inserted.sameResponses.grows
  | answer fetched committed => exact (workTxn_eq_ok committed).grows
  | importBatch receiving committed => exact (importTxn_eq_ok committed).2.grows
  | _ => exact Grows.refl _

/-- The response tables stay in agreement. -/
theorem Step.tablesAgree (agree : TablesAgree state.db) (step : Step strict state action next) :
    TablesAgree next.db := by
  cases step with
  | insert numbered inserted => exact agree.congr inserted.sameResponses
  | answer fetched committed => exact (workTxn_eq_ok committed).tablesAgree agree
  | importBatch receiving committed => exact (importTxn_eq_ok committed).2.tablesAgree agree
  | _ => exact agree

/-- **Every step keeps it.** -/
theorem Sound.step (sound : Sound state) (step : Step strict state action next) : Sound next where
  lock := sound.lock_step step
  callers := sound.callers_step step
  mirror := sound.mirror_step step
  agree := step.tablesAgree sound.agree
  fetched := sound.fetched_step step
  queue := by
    rcases sound.simulates step with same | ⟨label, -, step⟩
    · exact same ▸ sound.queue
    · exact sound.queue.step step

end Steps

theorem sound_start (strict : Bool) (workers : ℕ) : Sound (server strict workers).start where
  lock _ := iff_of_false (fun holds => holds) (by simp [server])
  callers _ := trivial
  mirror := ⟨fun queued => absurd queued Finmap.notMem_empty,
    fun held => absurd held Finmap.notMem_empty,
    fun queued => absurd queued Finmap.notMem_empty⟩
  agree := tablesAgree_empty
  fetched fetched := by cases fetched
  queue := by constructor <;> intros <;> contradiction

section Reaches

variable {strict : Bool} {workers : ℕ} {allowed : State workers → Action workers → Prop}
  {state : State workers}

/-- **The invariant rule of the server**: what holds at the start and is kept by every
allowed step from a sound state holds in every state that is reached. -/
theorem invariant_of_reaches {property : State workers → Prop}
    (start : property (server strict workers).start)
    (preserved : ∀ {state action next}, Sound state → property state → allowed state action →
      Step strict state action next → property next)
    (reached : (server strict workers).Reaches allowed state) : property state := by
  have both : Sound state ∧ property state :=
    @Machine.Reaches.invariant _ _ _ _ (fun state => Sound state ∧ property state)
      ⟨sound_start strict workers, start⟩
      (fun _ _ _ holds permitted enabled =>
        have step := step_of_eq_some enabled
        ⟨holds.1.step step, preserved holds.1 holds.2 permitted step⟩) _ reached
  exact both.2

/-- Every reachable state is sound. -/
theorem sound_of_reaches (reached : (server strict workers).Reaches allowed state) : Sound state :=
  invariant_of_reaches (sound_start strict workers) (fun sound _ _ step => sound.step step) reached

end Reaches

/-! ## The queue tables -/

/-- Only a transaction that commits changes the queue tables. -/
theorem sameQueue_of_step {workers : ℕ} {strict : Bool} {state next : State workers}
    {action : Action workers} (step : Step strict state action next) :
    SameQueue state.db next.db ∨
      (∃ caller entry, action = .transact caller false ∧
        next.history = state.history ++ [.inserted entry]) ∨
      ∃ worker entry newId res, action = .finish worker none ∧
        next.history = state.history ++ [.answered entry newId res] := by
  cases step with
  | @insert caller surt entry => exact .inr (.inl ⟨caller, entry, rfl, rfl⟩)
  | @answer worker entry newId res => exact .inr (.inr ⟨worker, entry, newId, res, rfl, rfl⟩)
  | importBatch receiving committed => exact .inl (importTxn_eq_ok committed).2.sameQueue
  | _ => exact .inl (SameQueue.refl _)

/-- **The two queue tables mirror each other** in every reachable state, with one entry
for every SURT, and an operation that fails leaves them as they were. -/
theorem queue_tables_mirror {strict : Bool} {workers : ℕ} {state : State workers}
    (reached : (server strict workers).Reaches Machine.anyStep state) :
    (∀ entry, Queued state.db entry → ∃ surt, urlNormalizeSurt entry.url uriMax = .ok surt ∧
      QueuedSurt state.db surt entry.time entry.id) ∧
    (∀ surt time id, QueuedSurt state.db surt time id → ∃! entry, Queued state.db entry ∧
      urlNormalizeSurt entry.url uriMax = .ok surt ∧ entry.time = time ∧ entry.id = id) ∧
    (∀ surt first second, Queued state.db first → Queued state.db second →
      urlNormalizeSurt first.url uriMax = .ok surt → urlNormalizeSurt second.url uriMax = .ok surt →
      first = second) ∧
    ∀ action next, (server strict workers).step state action = some next →
      SameQueue state.db next.db ∨
      (∃ caller entry, action = .transact caller false ∧
        next.history = state.history ++ [.inserted entry]) ∨
      ∃ worker entry newId res, action = .finish worker none ∧
        next.history = state.history ++ [.answered entry newId res] := by
  have mirror := (sound_of_reaches reached).mirror
  have single {surt : Str} {first second : Entry} (queued : Queued state.db first)
      (other : Queued state.db second) (normalized : urlNormalizeSurt first.url uriMax = .ok surt)
      (same : urlNormalizeSurt second.url uriMax = .ok surt) : first = second := by
    obtain ⟨_, accepted, -⟩ := mirror.forward queued
    obtain ⟨_, acceptedOther, -⟩ := mirror.forward other
    obtain rfl := accepted.unique normalized
    obtain rfl := acceptedOther.unique same
    exact mirror.single queued other accepted acceptedOther
  refine ⟨?_, ?_, ?_, ?_⟩
  · intro entry queued
    obtain ⟨surt, accepted, held⟩ := mirror.forward queued
    exact ⟨surt, accepted.normalized, held⟩
  · intro surt time id held
    obtain ⟨entry, queued, accepted, time, id⟩ := mirror.reverse held
    refine ⟨entry, ⟨queued, accepted.normalized, time, id⟩, ?_⟩
    rintro other ⟨queuedOther, normalized, -, -⟩
    exact single queuedOther queued normalized accepted.normalized
  · intro surt first second queued other
    exact single queued other
  · intro action next step
    exact sameQueue_of_step (step_of_eq_some step)

/-- Two clients that enqueue one URL, as sixteen workers look on. -/
theorem queue_tables_mirror_two_clients : ∃ state, (server false 16).Reaches Machine.anyStep state ∧
    Queued state.db ⟨100, 1, "http://a.b/".toList, []⟩ ∧
    ∀ surt first second, Queued state.db first → Queued state.db second →
      urlNormalizeSurt first.url uriMax = .ok surt → urlNormalizeSurt second.url uriMax = .ok surt →
      first = second := by
  have computed : ((server false 16).run Machine.anyStep (server false 16).start
      [.tick 100, .call 0 "http://a.b/".toList, .call 1 "http://a.b/".toList, .takeId 0, .takeId 1,
        .transact 0 false, .transact 1 false]).map
      (fun state => decide (Queued state.db ⟨100, 1, "http://a.b/".toList, []⟩)) = some true := by
    decide +kernel
  obtain ⟨state, reached, queued⟩ := Machine.reaches_of_run computed
  exact ⟨state, reached, of_decide_eq_true queued, (queue_tables_mirror reached).2.2.1⟩

end HashArchive.Queue
