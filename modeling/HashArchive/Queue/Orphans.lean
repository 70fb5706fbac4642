import HashArchive.Queue.Refinement

/-!
# Entries that are left behind

The cursor of the workers only moves forward within a process, so an entry that is
not beyond it, and that no worker holds, is not found again before a restart.

An entry comes there in two ways. It can be committed out of order: the time and
the id of an entry are fixed before its transaction, and another entry can be
committed and claimed in between. `no_orphan_of_ordered` says that this is the only
way as long as the workers succeed. Or a worker fails after it has claimed the
entry: `failed_iteration_forgets` says that the process then never comes back to it.
-/

set_option autoImplicit false

namespace HashArchive.Queue

open Db Hash Url

section Orphans

variable {workers : ℕ}

/-- Every entry of the forward table is beyond the cursor or with a worker. -/
def NoOrphan (state : State workers) : Prop :=
  ∀ entry, Queued state.db entry →
    state.cursor < entry.position ∨ ∃ worker, (state.worker worker).held = some entry

/-! ## Conditions on a step -/

/-- The checks of `queue_add`: the SURT is not queued, and was not crawled within the
delay. -/
def Insertable (db : Database) (surt : Str) (time : ℕ) : Prop :=
  db.lastWithin (queuedURLSurtAndTimeIDRange1 surt) = none ∧
    match db.lastWithin (urlSurtAndTimeIDRange1 surt) with
    | some (.urlSurtAndTimeID _ ltime _) => (ltime + configCrawlDelaySeconds) % 2 ^ 64 < time
    | _ => True

/-- Where a forward key stands. -/
def queuePosition : Key → Option (ℕ ×ₗ ℕ)
  | .timeIDQueuedURLAndClient time id _ _ => some (toLex (time, id))
  | _ => none

/-- An entry is beyond the cursor and beyond what a worker has just found, and no queued
entry has its time and id. -/
def InPlace (state : State workers) (entry : Entry) : Prop :=
  state.cursor < entry.position ∧
    (∀ worker, ∀ seen ∈ (state.worker worker).found, seen.position < entry.position) ∧
    ∀ key ∈ state.db.keys, queuePosition key ≠ some entry.position

/-- The entry that a call of `queue_add` has made, after the SURT of its URL. -/
def Caller.made : Caller → Option (Str × Entry)
  | .numbered surt entry => some (surt, entry)
  | _ => none

/-- What a worker has fetched. -/
def Worker.crawled : Worker → Option (Entry × ℕ × Response)
  | .fetched entry newId res => some (entry, newId, res)
  | _ => none

/-- An entry that the step inserts is in place. -/
def InsertsInPlace (state : State workers) : Action workers → Prop
  | .transact caller failing => failing = false → ∀ made ∈ (state.caller caller).made,
      Insertable state.db made.1 made.2.time → InPlace state made.2
  | _ => True

/-- A worker that comes to its transaction commits it. -/
def FinishCommits (strict : Bool) (state : State workers) : Action workers → Prop
  | .finish worker failing => ∀ crawled ∈ (state.worker worker).crawled, failing = none ∧
      (workTxn strict crawled.1 crawled.2.2 crawled.2.1 state.db).1 = .ok ()
  | _ => True

/-- Workers succeed, and entries are inserted in order. -/
def Ordered (strict : Bool) (state : State workers) (action : Action workers) : Prop :=
  FinishCommits strict state action ∧ InsertsInPlace state action

instance (db : Database) (surt : Str) (time : ℕ) : Decidable (Insertable db surt time) := by
  unfold Insertable
  have : Decidable (match db.lastWithin (urlSurtAndTimeIDRange1 surt) with
      | some (.urlSurtAndTimeID _ ltime _) => (ltime + configCrawlDelaySeconds) % 2 ^ 64 < time
      | _ => True) := by
    split <;> infer_instance
  infer_instance

instance (state : State workers) (entry : Entry) : Decidable (InPlace state entry) :=
  inferInstanceAs (Decidable (_ ∧ _ ∧ _))

instance (state : State workers) (action : Action workers) :
    Decidable (InsertsInPlace state action) := by
  induction action using Action.casesOn <;>
    first
      | exact .isTrue trivial
      | exact inferInstanceAs (Decidable (_ → ∀ made ∈ Caller.made _, _ → _))

instance (strict : Bool) (state : State workers) (action : Action workers) :
    Decidable (FinishCommits strict state action) := by
  induction action using Action.casesOn <;>
    first
      | exact .isTrue trivial
      | exact inferInstanceAs (Decidable (∀ crawled ∈ Worker.crawled _, _ ∧ _))

instance (strict : Bool) (state : State workers) (action : Action workers) :
    Decidable (Ordered strict state action) := inferInstanceAs (Decidable (_ ∧ _))

/-! ## Insertion in order -/

/-- An entry that was inserted had passed the checks. -/
theorem Inserted.insertable {surt : Str} {entry : Entry} {db after : Database}
    (inserted : Inserted surt entry db after) : Insertable db surt entry.time := by
  refine ⟨Store.lastWithin_eq_none_iff.mpr fun key held inRange => ?_, ?_⟩
  · obtain ⟨time, id, rfl⟩ := queuedURLSurtAndTimeIDRange1_iff.mp inRange
    exact inserted.notQueued time id held
  · split
    case h_1 text ltime lid latest =>
      obtain ⟨⟨held, inRange⟩, greatest⟩ := Store.lastWithin_eq_some_iff.mp latest
      obtain ⟨_, _, same⟩ := urlSurtAndTimeIDRange1_iff.mp inRange
      obtain rfl : text = surt := by
        cases same
        rfl
      obtain ⟨other, otherId, heldOther, le, due⟩ := inserted.due ltime lid held
      have notLess := not_lt.mpr
        (greatest _ heldOther (urlSurtAndTimeIDRange1_iff.mpr ⟨other, otherId, rfl⟩))
      rw [Key.urlSurtAndTimeID_lt_iff] at notLess
      obtain rfl : other = ltime := by omega
      exact due
    case h_2 => trivial

variable {strict : Bool} {state next : State workers} {action : Action workers}

/-- A key of a queued entry stands at its position. -/
theorem InPlace.position_ne {entry other : Entry} (inPlace : InPlace state entry)
    (queued : Queued state.db other) : other.position ≠ entry.position := fun same =>
  inPlace.2.2 _ (Finmap.mem_keys.mpr queued) (congrArg some same)

/-- A step that inserts in place and fails no worker is in order for the queue. -/
theorem inOrder_of_ordered {label : CursorQueue.Label Entry (Fin workers)}
    (causes : Causes strict state action label) (ordered : Ordered strict state action) :
    CursorQueue.InOrder Entry.position state.view label := by
  cases causes with
  | @insert caller surt entry after numbered inserted =>
      have made : (surt, entry) ∈ (state.caller caller).made := congrArg Caller.made numbered
      have inPlace : InPlace state entry := ordered.2 rfl _ made inserted.insertable
      refine ⟨?_, ?_, ?_, fun same => by cases same⟩
      · intro other same
        cases same
        exact inPlace.1
      · intro other worker seen same found
        cases same
        exact inPlace.2.1 worker seen found
      · intro other kept same queued
        cases same
        exact inPlace.position_ne queued
  | drop fetched why =>
      obtain ⟨succeeds, commits⟩ := ordered.1 _ (congrArg Worker.crawled fetched)
      obtain ⟨rc, failed⟩ := why succeeds
      rw [commits] at failed
      cases failed
  | find | claim | answer | reset => constructor <;> intros <;> contradiction

/-- Queued entries are beyond the origin. -/
theorem Sound.origin_lt (sound : Sound state) {entry : Entry} (queued : Queued state.db entry) :
    State.origin < entry.position := by
  obtain ⟨surt, accepted, -⟩ := sound.mirror.forward queued
  exact Prod.Lex.toLex_lt_toLex.mpr (.inl accepted.time_pos)

/-- **In order, no entry is left behind.** In a run whose workers commit, and in which
every entry is inserted beyond the cursor, beyond what a worker has just found and at
a place of its own, every queued entry is beyond the cursor or with a worker. -/
theorem no_orphan_of_ordered
    (reached : (server strict workers).Reaches (Ordered strict) state) : NoOrphan state := by
  have start : (server strict workers).start.view.Orderly Entry.position :=
    ⟨fun queued => absurd queued Finmap.notMem_empty, fun found => (nomatch found),
      fun queued => absurd queued Finmap.notMem_empty⟩
  have orderly : state.view.Orderly Entry.position := by
    refine @invariant_of_reaches _ _ _ _ (fun state => state.view.Orderly Entry.position) start
      ?_ reached
    intro before action next sound orderly ordered step
    rcases sound.simulates step with same | ⟨label, causes, moved⟩
    · exact same ▸ orderly
    · exact orderly.step sound.queue (fun _ queued => sound.origin_lt queued) moved
        (inOrder_of_ordered causes ordered)
  exact fun entry queued => orderly.pending queued

end Orphans

/-- Two clients whose entries are inserted in order, and one of them crawled. -/
theorem no_orphan_of_ordered_two_clients : ∃ state,
    (server false 16).Reaches (Ordered false) state ∧
    Queued state.db ⟨100, 2, "http://b.c/".toList, []⟩ ∧ NoOrphan state := by
  have computed : ((server false 16).run (Ordered false) (server false 16).start
      [.tick 100, .call 0 "http://a.b/".toList, .call 1 "http://b.c/".toList, .takeId 0, .takeId 1,
        .transact 0 false, .lock 3, .peek 3 false, .transact 1 false, .claim 3, .allocate 3,
        .fetch 3 .empty, .finish 3 none]).map
      (fun state => decide (Queued state.db ⟨100, 2, "http://b.c/".toList, []⟩)) = some true := by
    decide +kernel
  obtain ⟨state, reached, queued⟩ := Machine.reaches_of_run computed
  exact ⟨state, reached, of_decide_eq_true queued, no_orphan_of_ordered reached⟩

/-- **An entry can be orphaned.** Two clients call in one second; the second is committed
and claimed before the first, whose entry then lies behind the cursor and with no
worker. The clock does not run backwards and nothing fails. -/
theorem out_of_order_commit_orphans : ∃ state, (server false 16).Reaches
    (fun state action => ClockForward state action ∧ Undisturbed action) state ∧
    ¬ NoOrphan state := by
  have computed : ((server false 16).run
      (fun state action => ClockForward state action ∧ Undisturbed action) (server false 16).start
      [.tick 100, .call 0 "http://a.b/".toList, .call 1 "http://b.c/".toList, .takeId 0, .takeId 1,
        .transact 1 false, .lock 3, .peek 3 false, .claim 3, .transact 0 false]).map
      (fun state => decide (Queued state.db ⟨100, 1, "http://a.b/".toList, []⟩ ∧
        ¬ state.cursor < toLex (100, 1) ∧ ∀ worker,
          (state.worker worker).held ≠ some ⟨100, 1, "http://a.b/".toList, []⟩)) = some true := by
    decide +kernel
  obtain ⟨state, reached, tested⟩ := Machine.reaches_of_run computed
  obtain ⟨queued, behind, free⟩ := of_decide_eq_true tested
  refine ⟨state, reached, fun noOrphan => ?_⟩
  rcases noOrphan _ queued with beyond | ⟨worker, held⟩
  · exact behind beyond
  · exact free worker held

/-! ## Iterations that fail -/

section Failures

variable {workers : ℕ} {strict : Bool} {state next : State workers} {action : Action workers}

/-- Within a process the cursor only moves forward. -/
theorem Step.cursor_forward (sound : Sound state) (step : Step strict state action next) :
    next.starts = state.starts + 1 ∨ next.starts = state.starts ∧ state.cursor ≤ next.cursor := by
  cases step with
  | claim peeked => exact .inr ⟨rfl, (sound.queue.found_beyond (congrArg Worker.found peeked)).le⟩
  | restart => exact .inl rfl
  | _ => exact .inr ⟨rfl, le_rfl⟩

theorem cursor_le_of_leads (sound : Sound state) {later : State workers}
    (run : (server strict workers).Leads Machine.anyStep state later) :
    Sound later ∧ state.starts ≤ later.starts ∧
      (later.starts = state.starts → state.cursor ≤ later.cursor) := by
  refine @Machine.Leads.invariant _ _ _ _ (fun later => Sound later ∧ state.starts ≤ later.starts ∧
    (later.starts = state.starts → state.cursor ≤ later.cursor)) ?_ _ _ run
    ⟨sound, le_rfl, fun _ => le_rfl⟩
  rintro before action after ⟨soundBefore, starts, forward⟩ - enabled
  have step := step_of_eq_some enabled
  refine ⟨soundBefore.step step, ?_⟩
  rcases step.cursor_forward soundBefore with again | ⟨same, moved⟩
  · exact ⟨by omega, fun equal => by omega⟩
  · exact ⟨by omega, fun equal => (forward (by omega)).trans moved⟩

/-- **An entry that is not beyond the cursor is not found again by the process.** -/
theorem not_found_again (sound : Sound state) {entry : Entry}
    (behind : entry.position ≤ state.cursor) {later : State workers}
    (run : (server strict workers).Leads Machine.anyStep state later)
    (sameProcess : later.starts = state.starts) :
    (queuePeek later.workTime later.workId later.db).1 ≠ .ok (some entry) := by
  intro found
  obtain ⟨soundLater, -, forward⟩ := cursor_le_of_leads sound run
  obtain ⟨-, beyond, -⟩ := queuePeek_eq_some found fun _ => soundLater.fits
  exact (behind.trans (forward sameProcess)).not_gt beyond

/-- What an iteration leaves when its transaction is not committed. -/
theorem finish_failed {worker : Fin workers} {failing : Option FailurePoint} {entry : Entry}
    {newId : ℕ} {res : Response} (fetched : state.worker worker = .fetched entry newId res)
    (failed : failing ≠ none ∨
      ∃ rc, (workTxn strict entry res newId state.db).1 = .error (.code rc)) :
    (server strict workers).step state (.finish worker failing) =
      some (state.setWorker worker .idle) := by
  show state.finish strict worker failing = _
  unfold State.finish
  rw [fetched]
  by_cases fails : failing = none
  · obtain ⟨rc, error⟩ := failed.resolve_left (not_not_intro fails)
    rw [fails]
    dsimp only
    rw [if_neg (by simp), Txn.commit_of_error (Prod.ext error rfl)]
  · exact if_pos fails

/-- **A failed iteration forgets its entry.** Wherever an iteration fails after its peek,
the entry is still queued afterwards, and no peek of the same process returns it
again. -/
theorem failed_iteration_forgets
    (reached : (server strict workers).Reaches Machine.anyStep state) {worker : Fin workers}
    {failing : Option FailurePoint} {entry : Entry} {newId : ℕ} {res : Response}
    (fetched : state.worker worker = .fetched entry newId res)
    (failed : failing ≠ none ∨
      ∃ rc, (workTxn strict entry res newId state.db).1 = .error (.code rc))
    (finished : (server strict workers).step state (.finish worker failing) = some next) :
    Queued next.db entry ∧ ∀ later, (server strict workers).Leads Machine.anyStep next later →
      later.starts = next.starts →
      (queuePeek later.workTime later.workId later.db).1 ≠ .ok (some entry) := by
  have sound := sound_of_reaches reached
  have held := congrArg Worker.held fetched
  have soundNext := sound.step (step_of_eq_some finished)
  rw [finish_failed fetched failed] at finished
  cases finished
  exact ⟨sound.held_queued held,
    fun later run => not_found_again soundNext (sound.queue.held_behind held) run⟩

end Failures

/-- The run up to the fetch of the only entry. -/
def oneFetched (worker : Fin 16) : List (Action 16) :=
  [.tick 100, .call 0 "http://a.b/".toList, .takeId 0, .transact 0 false, .broadcast 0, .lock worker,
    .peek worker false, .claim worker, .allocate worker, .fetch worker .empty]

/-- The worker has fetched the page of the only entry. -/
theorem reaches_oneFetched : ∃ state, (server false 16).Reaches
    (fun state action => ClockForward state action ∧ Undisturbed action) state ∧
    state.cursor = toLex (100, 1) ∧
    ∃ newId res, state.worker 3 = .fetched ⟨100, 1, "http://a.b/".toList, []⟩ newId res := by
  have computed : ((server false 16).run
      (fun state action => ClockForward state action ∧ Undisturbed action) (server false 16).start
      (oneFetched 3)).map (fun state => match state.worker 3 with
        | .fetched entry _ _ => decide (state.cursor = toLex (100, 1) ∧
            entry = ⟨100, 1, "http://a.b/".toList, []⟩)
        | _ => false) = some true := by
    decide +kernel
  obtain ⟨state, reached, tested⟩ := Machine.reaches_of_run computed
  refine ⟨state, reached, ?_⟩
  cases stage : state.worker 3 with
  | fetched entry newId res =>
      rw [stage] at tested
      obtain ⟨cursor, rfl⟩ := of_decide_eq_true tested
      exact ⟨cursor, newId, res, rfl⟩
  | _ =>
      rw [stage] at tested
      cases tested

/-- An iteration that cannot open the store. -/
theorem failed_iteration_forgets_dbOpen : ∃ state next,
    (server false 16).step state (.finish 3 (some .dbOpen)) = some next ∧
    ∀ later, (server false 16).Leads Machine.anyStep next later → later.starts = next.starts →
      (queuePeek later.workTime later.workId later.db).1 ≠
        .ok (some ⟨100, 1, "http://a.b/".toList, []⟩) := by
  obtain ⟨state, reached, -, newId, res, fetched⟩ := reaches_oneFetched
  have failed : some FailurePoint.dbOpen ≠ none ∨
      ∃ rc, (workTxn false ⟨100, 1, "http://a.b/".toList, []⟩ res newId state.db).1 =
        .error (.code rc) := .inl (by simp)
  have finished := finish_failed fetched failed
  exact ⟨state, _, finished, (failed_iteration_forgets
    (reached.mono fun _ _ _ => trivial) fetched failed finished).2⟩

/-- **A failed crawl is forgotten.** The commit of the only entry fails; the entry is still
queued, and the process never returns to it. -/
theorem failed_commit_forgotten : ∃ state next, (server false 16).Reaches
    (fun state action => ClockForward state action ∧ Undisturbed action) state ∧
    (server false 16).step state (.finish 3 (some .txnCommit)) = some next ∧
    Queued next.db ⟨100, 1, "http://a.b/".toList, []⟩ ∧
    ¬ ∃ later, (server false 16).Leads Machine.anyStep next later ∧ later.starts = next.starts ∧
      (queuePeek later.workTime later.workId later.db).1 =
        .ok (some ⟨100, 1, "http://a.b/".toList, []⟩) := by
  obtain ⟨state, reached, cursor, newId, res, fetched⟩ := reaches_oneFetched
  have sound := sound_of_reaches reached
  have held := congrArg Worker.held fetched
  have finished : (server false 16).step state (.finish 3 (some .txnCommit)) =
      some (state.setWorker 3 .idle) := finish_failed fetched (.inl (by simp))
  refine ⟨state, _, reached, finished, sound.held_queued held, ?_⟩
  rintro ⟨later, run, sameProcess, found⟩
  have soundNext := sound.step (step_of_eq_some finished)
  refine not_found_again soundNext ?_ run sameProcess found
  exact cursor.ge

end HashArchive.Queue
