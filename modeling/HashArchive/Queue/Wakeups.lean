import HashArchive.Queue.Refinement

/-!
# No lost wakeup

`queue_add` broadcasts after it has committed, without `work_lock`, so a worker that
has read an empty snapshot and is about to wait can miss it. With two workers this
does no harm: only one worker at a time is between its snapshot and its wait, and a
broadcast wakes the others or finds them at work. `Attended` is the invariant: as long
as there is an entry beyond the cursor, some caller has still to broadcast, or some
worker will read the queue again.
-/

set_option autoImplicit false

namespace HashArchive.Queue

open Db

section Steps

variable {workers : ℕ} {strict : Bool} {state next : State workers} {action : Action workers}

/-- There is an entry beyond the cursor. -/
def Pending (state : State workers) : Prop :=
  ∃ entry, Queued state.db entry ∧ state.cursor < entry.position

/-- A caller has committed and not yet broadcast. -/
def Announcing (state : State workers) : Prop := ∃ caller, state.caller caller = .committed

/-- A worker that is registered, or holds the lock and is about to register. -/
def Worker.Resting (worker : Worker) : Prop := worker = .waiting ∨ worker = .notFound

/-- **What is pending is attended to.** -/
def Attended (state : State workers) : Prop :=
  Pending state → Announcing state ∨ ∃ worker, ¬ (state.worker worker).Resting

/-- A worker that is at work attends to everything. -/
theorem attended_of_worker {worker : Fin workers} (busy : ¬ (next.worker worker).Resting) :
    Attended next := fun _ => .inr ⟨worker, busy⟩

theorem attended_of_update {worker : Fin workers} {value : Worker}
    (assigned : next.worker = Function.update state.worker worker value) (busy : ¬ value.Resting) :
    Attended next :=
  attended_of_worker (by rwa [assigned, Function.update_self])

/-- A step of a caller that was not about to broadcast. -/
theorem Attended.of_caller (attended : Attended state) (pending : Pending next → Pending state)
    (worker : next.worker = state.worker)
    (caller : ∀ caller, state.caller caller = .committed → next.caller caller = .committed) :
    Attended next := by
  intro now
  rcases attended (pending now) with ⟨announcing, committed⟩ | busy
  · exact .inl ⟨announcing, caller announcing committed⟩
  · exact .inr (worker ▸ busy)

theorem committed_of_update {changed : ℕ} {value : Caller}
    (other : state.caller changed ≠ .committed) (caller : ℕ)
    (committed : state.caller caller = .committed) :
    Function.update state.caller changed value caller = .committed := by
  rw [Function.update_of_ne, committed]
  rintro rfl
  exact other committed

/-- **Of two workers one is awake after a broadcast.** A worker that is not woken is about
to wait, with the lock. -/
theorem Sound.awake_of_broadcast (sound : Sound state) (two : 2 ≤ workers) :
    ∃ worker, ¬ (if state.worker worker = .waiting then Worker.woken else
      state.worker worker).Resting := by
  by_contra resting
  push Not at resting
  have aboutToWait (worker : Fin workers) : state.worker worker = .notFound := by
    have rests := resting worker
    by_cases waiting : state.worker worker = .waiting
    · simp [waiting, Worker.Resting] at rests
    · rw [if_neg waiting] at rests
      exact rests.resolve_left waiting
  have same : (⟨0, by omega⟩ : Fin workers) = ⟨1, by omega⟩ :=
    sound.lock_unique (by rw [aboutToWait]; trivial) (by rw [aboutToWait]; trivial)
  simp at same

/-- **Every step keeps it.** -/
theorem Attended.step (attended : Attended state) (sound : Sound state) (two : 2 ≤ workers)
    (step : Step strict state action next) : Attended next := by
  have idle : ¬ Worker.idle.Resting := by rintro (absurd | absurd) <;> cases absurd
  cases step with
  | tick | connect | disconnect => exact attended
  | call free =>
      exact attended.of_caller id rfl (committed_of_update (by simp [free]))
  | number called =>
      exact attended.of_caller id rfl (committed_of_update (by simp [called]))
  | leave waits => exact attended.of_caller id rfl (committed_of_update waits)
  | @insert caller => exact fun _ => .inl ⟨caller, Function.update_self ..⟩
  | broadcast => exact fun _ => .inr (sound.awake_of_broadcast two)
  | lock => exact attended_of_update rfl (by rintro (absurd | absurd) <;> cases absurd)
  | giveUp => exact attended_of_update rfl idle
  | find => exact attended_of_update rfl (by rintro (absurd | absurd) <;> cases absurd)
  | miss locked nothing =>
      rintro ⟨entry, queued, beyond⟩
      exact absurd beyond (queuePeek_eq_none nothing entry queued)
  | claim => exact attended_of_update rfl (by rintro (absurd | absurd) <;> cases absurd)
  | @wait worker notFound =>
      intro pending
      rcases attended pending with announcing | ⟨other, busy⟩
      · exact .inl announcing
      · refine .inr ⟨other, ?_⟩
        have different : other ≠ worker := by
          rintro rfl
          exact busy (.inr notFound)
        show ¬ (Function.update state.worker worker .waiting other).Resting
        rwa [Function.update_of_ne different]
  | allocate => exact attended_of_update rfl (by rintro (absurd | absurd) <;> cases absurd)
  | fetch => exact attended_of_update rfl (by rintro (absurd | absurd) <;> cases absurd)
  | answer => exact attended_of_update rfl idle
  | fail => exact attended_of_update rfl idle
  | importBatch receiving committed =>
      have same := (importTxn_eq_ok committed).2.sameQueue
      refine attended.of_caller ?_ rfl fun _ committed => committed
      rintro ⟨entry, queued, beyond⟩
      exact ⟨entry, (same.queued entry).mp queued, beyond⟩
  | restart => exact fun _ => .inr ⟨⟨0, by omega⟩, idle⟩

end Steps

/-- **No lost wakeup.** With two workers or more no state is reachable in which every
worker is registered and not woken, every insertion that was committed has been
broadcast, and there is an entry beyond the cursor. -/
theorem no_lost_wakeup {strict : Bool} {workers : ℕ} (two : 2 ≤ workers) {state : State workers}
    (reached : (server strict workers).Reaches Machine.anyStep state) :
    ¬ ((∀ worker, state.worker worker = .waiting) ∧ (∀ caller, state.caller caller ≠ .committed) ∧
      ∃ entry, Queued state.db entry ∧ state.cursor < entry.position) := by
  rintro ⟨waiting, broadcast, pending⟩
  have attended : Attended state := invariant_of_reaches
    (fun _ => .inr ⟨⟨0, by omega⟩, by rintro (absurd | absurd) <;> cases absurd⟩)
    (fun sound attended _ step => attended.step sound two step) reached
  rcases attended pending with ⟨caller, committed⟩ | ⟨worker, busy⟩
  · exact broadcast caller committed
  · exact busy (.inl (waiting worker))

/-- A worker that misses a broadcast, and one that is woken by it. -/
theorem no_lost_wakeup_of_two : ∃ state, (server false 2).Reaches Machine.anyStep state ∧
    (state.worker 0 = .waiting ∧ state.worker 1 = .woken) ∧
    ¬ ((∀ worker, state.worker worker = .waiting) ∧ (∀ caller, state.caller caller ≠ .committed) ∧
      ∃ entry, Queued state.db entry ∧ state.cursor < entry.position) := by
  have computed : ((server false 2).run Machine.anyStep (server false 2).start
      [.tick 100, .call 0 "http://a.b/".toList, .takeId 0, .lock 1, .peek 1 false, .wait 1 false,
        .lock 0, .peek 0 false, .transact 0 false, .broadcast 0, .wait 0 false]).map
      (fun state => decide (state.worker 0 = .waiting ∧ state.worker 1 = .woken)) = some true := by
    decide +kernel
  obtain ⟨state, reached, woken⟩ := Machine.reaches_of_run computed
  exact ⟨state, reached, of_decide_eq_true woken, no_lost_wakeup (by decide) reached⟩

end HashArchive.Queue
