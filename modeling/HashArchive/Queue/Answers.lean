import HashArchive.Queue.Origins
import Mathlib.Data.List.Chain

/-!
# Each accepted request is answered at most once

The history records what was committed about an entry: its insertions, and its
answers, each the removal of the entry and the storing of one response in one
transaction. The two take turns (`TakeTurns`), an insertion first, and the entry is
queued exactly as long as an insertion was the last of them. So an entry that was
inserted is either still queued and not answered, or was answered once.

Nothing else answers a request: a response that is stored, but not by a batch that was sent to
the import socket, is logged as an answer (`Step.logged`).

No clock is assumed: after a restart ids start over, so that the same entry can
be inserted again once it was answered, and takes its turns again.
-/

set_option autoImplicit false

namespace HashArchive.Queue

open Db Hash Url

/-! ## Turns -/

/-- What an event says about an entry: `true` when it inserts it, `false` when it
answers it. -/
def Event.turn (entry : Entry) : Event → Option Bool
  | .inserted other => if other = entry then some true else none
  | .answered other _ _ => if other = entry then some false else none
  | .sent _ _ => none

/-- The turns of an entry in a history. -/
def turns (entry : Entry) (history : List Event) : List Bool :=
  history.filterMap (Event.turn entry)

/-- Insertions and answers take turns, an insertion first. -/
def TakeTurns (turns : List Bool) : Prop := (false :: turns).IsChain (· ≠ ·)

/-- Whether the last turn was an insertion. -/
def lastTurn (turns : List Bool) : Bool := turns.getLast?.getD false

@[simp] theorem lastTurn_append (turns : List Bool) (turn : Bool) :
    lastTurn (turns ++ [turn]) = turn := by
  simp [lastTurn]

theorem TakeTurns.append {turns : List Bool} {turn : Bool} (taken : TakeTurns turns)
    (next : lastTurn turns ≠ turn) : TakeTurns (turns ++ [turn]) := by
  rw [TakeTurns, ← List.cons_append]
  refine List.IsChain.append taken (.singleton turn) ?_
  intro last isLast first isFirst
  rw [List.getLast?_cons, Option.mem_some_iff] at isLast
  rw [List.head?_cons, Option.mem_some_iff] at isFirst
  rw [← isLast, ← isFirst]
  exact next

theorem turns_append (entry : Entry) (history : List Event) (event : Event) :
    turns entry (history ++ [event]) = turns entry history ++ (event.turn entry).toList := by
  rw [turns, List.filterMap_append]
  cases turn : event.turn entry <;> simp [turns, turn]

/-- The key of the response that an event stores. -/
def Event.storedKey : Event → Option (ℕ × ℕ)
  | .answered _ newId res => some (res.time, newId)
  | _ => none

section Steps

variable {workers : ℕ} {strict : Bool} {state next : State workers} {action : Action workers}

/-! ## What every step keeps -/

/-- **The history agrees with the tables.** -/
structure Recorded (state : State workers) : Prop where
  inTurn : ∀ entry, TakeTurns (turns entry state.history)
  queued : ∀ entry, Queued state.db entry ↔ lastTurn (turns entry state.history) = true
  stored : ∀ {entry newId res}, Event.answered entry newId res ∈ state.history →
    res.url = entry.url ∧ Stores state.db res.time newId res.url res.digests
  apart : (state.history.filterMap Event.storedKey).Nodup

/-- Events that say nothing about the queue. -/
theorem Recorded.of_quiet (recorded : Recorded state) (grows : Grows state.db next.db)
    (same : SameQueue state.db next.db) {events : List Event}
    (history : next.history = state.history ++ events)
    (quiet : ∀ event ∈ events, ∃ position res, event = .sent position res) : Recorded next := by
  have noTurns (entry : Entry) : turns entry events = [] := by
    apply List.filterMap_eq_nil_iff.mpr
    intro event member
    obtain ⟨position, res, rfl⟩ := quiet event member
    rfl
  have noKeys : events.filterMap Event.storedKey = [] := by
    apply List.filterMap_eq_nil_iff.mpr
    intro event member
    obtain ⟨position, res, rfl⟩ := quiet event member
    rfl
  have turnsEq (entry : Entry) : turns entry next.history = turns entry state.history := by
    rw [history, turns, List.filterMap_append]
    exact (congrArg _ (noTurns entry)).trans (List.append_nil _)
  refine ⟨fun entry => turnsEq entry ▸ recorded.inTurn entry, fun entry => ?_, ?_, ?_⟩
  · rw [turnsEq, same.queued entry]
    exact recorded.queued entry
  · intro entry newId res member
    rw [history, List.mem_append] at member
    rcases member with member | member
    · obtain ⟨url, stores⟩ := recorded.stored member
      exact ⟨url, grows.stores stores⟩
    · obtain ⟨position, res, absurd⟩ := quiet _ member
      cases absurd
  · rw [history, List.filterMap_append, noKeys, List.append_nil]
    exact recorded.apart

/-- One event about an entry whose turn it is. -/
theorem Recorded.turns_step (recorded : Recorded state) (event : Event) {entry : Entry} {turn : Bool}
    (about : ∀ other, event.turn other = if entry = other then some turn else none)
    (due : lastTurn (turns entry state.history) ≠ turn) (other : Entry) :
    TakeTurns (turns other (state.history ++ [event])) ∧
      lastTurn (turns other (state.history ++ [event])) =
        if entry = other then turn else lastTurn (turns other state.history) := by
  rw [turns_append, about other]
  by_cases same : entry = other
  · subst same
    rw [if_pos rfl, if_pos rfl]
    exact ⟨(recorded.inTurn entry).append due, lastTurn_append _ _⟩
  · rw [if_neg same, if_neg same, Option.toList_none, List.append_nil]
    exact ⟨recorded.inTurn other, rfl⟩

/-- A key that was used is taken. -/
theorem Recorded.key_taken (recorded : Recorded state) {res : Response} {newId : ℕ}
    (used : (res.time, newId) ∈ state.history.filterMap Event.storedKey) :
    Key.timeIDToResponse res.time newId ∈ state.db := by
  obtain ⟨event, member, key⟩ := List.mem_filterMap.mp used
  cases event with
  | answered other otherId otherRes =>
      obtain ⟨sameTime, rfl⟩ : otherRes.time = res.time ∧ otherId = newId := by
        simpa [Event.storedKey] using key
      obtain ⟨-, held, lookup, -⟩ := recorded.stored member
      rw [sameTime] at lookup
      exact Finmap.mem_iff.mpr ⟨held, lookup⟩
  | inserted | sent => cases key

/-- **Every step keeps it.** -/
theorem Recorded.step (recorded : Recorded state) (sound : Sound state)
    (step : Step strict state action next) : Recorded next := by
  have grows := step.grows
  cases step with
  | @insert caller surt entry after numbered inserted =>
      have accepted := sound.accepted numbered
      have absent := inserted.absent sound.mirror accepted accepted
      have due : lastTurn (turns entry state.history) ≠ true := by
        rwa [ne_eq, ← recorded.queued entry]
      have taken := recorded.turns_step (.inserted entry) (fun other => rfl) due
      refine ⟨fun other => (taken other).1, ?_, ?_, ?_⟩
      · intro other
        refine (inserted.queued_iff other).trans ?_
        rw [(taken other).2, recorded.queued other]
        by_cases same : entry = other
        · simp [same]
        · simp [same, Ne.symm same]
      · intro other newId res member
        rw [List.mem_append, List.mem_singleton] at member
        obtain ⟨url, stores⟩ := recorded.stored (member.resolve_right (by simp))
        exact ⟨url, grows.stores stores⟩
      · rw [List.filterMap_append]
        exact (List.append_nil (state.history.filterMap Event.storedKey)).symm ▸ recorded.apart
  | @answer worker entry newId res done after fetched committed =>
      have worked := workTxn_eq_ok committed
      have queued := sound.held_queued (congrArg Worker.held fetched)
      have due : lastTurn (turns entry state.history) ≠ false := by
        rw [(recorded.queued entry).mp queued]
        simp
      have taken := recorded.turns_step (.answered entry newId res) (fun other => rfl) due
      refine ⟨fun other => (taken other).1, ?_, ?_, ?_⟩
      · intro other
        refine (worked.queued_iff other).trans ?_
        rw [(taken other).2, recorded.queued other]
        by_cases same : entry = other
        · simp [same]
        · simp [same, Ne.symm same]
      · intro other otherId otherRes member
        rw [List.mem_append, List.mem_singleton] at member
        rcases member with member | new
        · obtain ⟨url, stores⟩ := recorded.stored member
          exact ⟨url, grows.stores stores⟩
        · cases new
          exact ⟨sound.fetched fetched, worked.stores⟩
      · rw [List.filterMap_append]
        refine List.nodup_append.mpr ⟨recorded.apart, List.nodup_singleton _, ?_⟩
        rintro earlier member _ new rfl
        obtain rfl := List.mem_singleton.mp new
        exact worked.fresh (recorded.key_taken member)
  | connect closed =>
      apply recorded.of_quiet grows (SameQueue.refl _) rfl
      intro event member
      obtain ⟨⟨res, position⟩, -, rfl⟩ := List.mem_map.mp member
      exact ⟨position, res, rfl⟩
  | importBatch receiving committed =>
      exact recorded.of_quiet grows (importTxn_eq_ok committed).2.sameQueue
        (List.append_nil _).symm (by simp)
  | _ => exact recorded.of_quiet grows (SameQueue.refl _) (List.append_nil _).symm (by simp)

/-- **An entry leaves the queue in one way**: a worker commits the transaction that
removes it and stores one response, under a key that was free. -/
theorem Sound.leaves (sound : Sound state) (step : Step strict state action next) {entry : Entry}
    (queued : Queued state.db entry) (gone : ¬ Queued next.db entry) :
    ∃ worker newId res, action = .finish worker none ∧
      next.history = state.history ++ [.answered entry newId res] ∧ res.url = entry.url ∧
      Key.timeIDToResponse res.time newId ∉ state.db ∧
      Stores next.db res.time newId res.url res.digests ∧
      ∀ time id, Key.timeIDToResponse time id ∈ next.db ↔
        (time = res.time ∧ id = newId) ∨ Key.timeIDToResponse time id ∈ state.db := by
  cases step with
  | insert numbered inserted => exact absurd ((inserted.queued_iff entry).mpr (.inr queued)) gone
  | importBatch receiving committed =>
      exact absurd (((importTxn_eq_ok committed).2.sameQueue.queued entry).mpr queued) gone
  | @answer worker removed newId res done after fetched committed =>
      have worked := workTxn_eq_ok committed
      obtain rfl : entry = removed := by
        by_contra different
        exact gone ((worked.queued_iff entry).mpr ⟨queued, different⟩)
      exact ⟨worker, newId, res, rfl, rfl, sound.fetched fetched, worked.fresh, worked.stores,
        fun time id => worked.response_iff⟩
  | _ => exact absurd queued gone

/-- **A response that no import stores is logged as an answer.** -/
theorem Step.logged (step : Step strict state action next)
    (notImport : ∀ connection failing, action ≠ .importBatch connection failing) {time id : ℕ}
    (held : Key.timeIDToResponse time id ∈ next.db)
    (absent : Key.timeIDToResponse time id ∉ state.db) :
    ∃ entry res, next.history = state.history ++ [.answered entry id res] ∧ res.time = time ∧
      Present next.db res id := by
  rcases step.appears held absent with ⟨connection, _, imported, -⟩ |
    ⟨_, entry, res, -, history, sameTime, present⟩
  · exact absurd imported (notImport connection false)
  · exact ⟨entry, res, history, sameTime, present⟩

end Steps

theorem recorded_start (strict : Bool) (workers : ℕ) : Recorded (server strict workers).start where
  inTurn _ := .singleton false
  queued _ := iff_of_false Finmap.notMem_empty (by simp [lastTurn, turns, server])
  stored member := absurd member List.not_mem_nil
  apart := List.nodup_nil

/-- The history agrees with the tables in every reachable state. -/
theorem recorded_of_reaches {strict : Bool} {workers : ℕ}
    {allowed : State workers → Action workers → Prop} {state : State workers}
    (reached : (server strict workers).Reaches allowed state) : Recorded state :=
  invariant_of_reaches (recorded_start strict workers)
    (fun sound recorded _ step => recorded.step sound step) reached

/-- **Each accepted request is answered at most once and never dropped.** In every
reachable state the insertions and answers of an entry take turns; the entry is in
both tables exactly when an insertion was the last turn; an answer stored one
response, whose URL is that of the entry, under a key of its own; an entry leaves the
queue only in the transaction that stores the response; and every response that is
stored otherwise than by an import is logged as an answer. -/
theorem requests_answered_at_most_once {strict : Bool} {workers : ℕ} {state : State workers}
    (reached : (server strict workers).Reaches Machine.anyStep state) :
    (∀ entry, TakeTurns (turns entry state.history) ∧
      (Queued state.db entry ↔ lastTurn (turns entry state.history) = true) ∧
      (Queued state.db entry → ∃ surt, urlNormalizeSurt entry.url uriMax = .ok surt ∧
        QueuedSurt state.db surt entry.time entry.id)) ∧
    (∀ entry newId res, Event.answered entry newId res ∈ state.history →
      res.url = entry.url ∧ Stores state.db res.time newId res.url res.digests) ∧
    (state.history.filterMap Event.storedKey).Nodup ∧
    ∀ action next, (server strict workers).step state action = some next →
      (∀ entry, Queued state.db entry → ¬ Queued next.db entry →
        ∃ worker newId res, action = .finish worker none ∧
          next.history = state.history ++ [.answered entry newId res] ∧ res.url = entry.url ∧
          Key.timeIDToResponse res.time newId ∉ state.db ∧
          Stores next.db res.time newId res.url res.digests ∧
          ∀ time id, Key.timeIDToResponse time id ∈ next.db ↔
            (time = res.time ∧ id = newId) ∨ Key.timeIDToResponse time id ∈ state.db) ∧
      ((∀ connection failing, action ≠ .importBatch connection failing) →
        ∀ time id, Key.timeIDToResponse time id ∈ next.db →
          Key.timeIDToResponse time id ∉ state.db →
          ∃ entry res, next.history = state.history ++ [.answered entry id res] ∧
            res.time = time ∧ Present next.db res id) := by
  have sound := sound_of_reaches reached
  have recorded := recorded_of_reaches reached
  refine ⟨?_, ?_, recorded.apart, ?_⟩
  · intro entry
    refine ⟨recorded.inTurn entry, recorded.queued entry, ?_⟩
    intro queued
    obtain ⟨surt, accepted, held⟩ := sound.mirror.forward queued
    exact ⟨surt, accepted.normalized, held⟩
  · intro entry newId res answered
    exact recorded.stored answered
  · intro action next enabled
    have step := step_of_eq_some enabled
    exact ⟨fun _ => sound.leaves step, fun notImport _ _ => step.logged notImport⟩

/-- A request that is inserted and answered. -/
theorem requests_answered_at_most_once_one_request :
    ∃ state, (server false 16).Reaches Machine.anyStep state ∧
      turns ⟨100, 1, "http://a.b/".toList, []⟩ state.history = [true, false] ∧
      ∀ entry, TakeTurns (turns entry state.history) := by
  have computed : ((server false 16).run Machine.anyStep (server false 16).start
      [.tick 100, .call 0 "http://a.b/".toList, .takeId 0, .transact 0 false, .lock 3, .peek 3 false,
        .claim 3, .broadcast 0, .allocate 3, .fetch 3 .empty, .finish 3 none]).map
      (fun state => decide (turns ⟨100, 1, "http://a.b/".toList, []⟩ state.history =
        [true, false])) = some true := by
    decide +kernel
  obtain ⟨state, reached, taken⟩ := Machine.reaches_of_run computed
  exact ⟨state, reached, of_decide_eq_true taken,
    fun entry => ((requests_answered_at_most_once reached).1 entry).1⟩

end HashArchive.Queue
