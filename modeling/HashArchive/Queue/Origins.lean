import HashArchive.Queue.Refinement

/-!
# Where responses come from

A response is stored in one of two ways: a connection stores a batch of what its client has
sent, or a worker answers an entry (`Step.appears`). The history records both, so whatever is
stored has an origin there, in every reachable state (`sourced_of_reaches`).
-/

set_option autoImplicit false

namespace HashArchive.Queue

open Db Hash Url

/-! ## Responses on their way -/

/-- The responses that a connection still has to store, each with its id. -/
def Connection.pending : Connection → List (Response × ℕ)
  | .closed => []
  | .receiving id responses => responses.zipIdx id

/-- The time and the id under which a response is stored. -/
def responseKey (pending : Response × ℕ) : ℕ × ℕ := (pending.1.time, pending.2)

/-- What is left of a stream after a batch. -/
theorem pending_afterBatch (id : ℕ) (responses : List Response) :
    (State.afterBatch id responses).pending = (responses.drop responseBatchSize).zipIdx id := by
  unfold State.afterBatch
  split_ifs with last
  · rw [List.drop_eq_nil_of_le last.le]
    rfl
  · rfl

/-- A batch and what is left of the stream. -/
theorem mem_pending_iff {id : ℕ} {responses : List Response} {pending : Response × ℕ} :
    pending ∈ (Connection.receiving id responses).pending ↔
      pending ∈ (responses.take responseBatchSize).zipIdx id ∨ pending ∈ (State.afterBatch
        (id + (responses.take responseBatchSize).length) responses).pending := by
  rw [pending_afterBatch, ← List.mem_append, ← List.zipIdx_append, List.take_append_drop]
  rfl

/-! ## Batches -/

/-- The responses of a batch are the only new ones. -/
theorem AddedAll.response_iff {responses : List Response} {id : ℕ} {db after : Database}
    (all : AddedAll responses id db after) {time other : ℕ} :
    Key.timeIDToResponse time other ∈ after ↔
      (∃ pending ∈ responses.zipIdx id, responseKey pending = (time, other)) ∨
        Key.timeIDToResponse time other ∈ db := by
  induction all with
  | nil => simp
  | cons added rest ih =>
      rw [ih, added.response_iff, List.zipIdx_cons]
      simp only [List.exists_mem_cons_iff, responseKey, Prod.mk.injEq, @eq_comm _ time,
        @eq_comm _ other]
      rw [or_left_comm, or_assoc]

/-- They are all in the table. -/
theorem AddedAll.present {responses : List Response} {id : ℕ} {db after : Database}
    (all : AddedAll responses id db after) {pending : Response × ℕ}
    (member : pending ∈ responses.zipIdx id) : Present after pending.1 pending.2 := by
  induction all with
  | nil => cases member
  | cons added rest ih =>
      rcases List.mem_cons.mp member with rfl | later
      · exact added.present.grows rest.grows
      · exact ih later

/-! ## The history -/

section Steps

variable {workers : ℕ} {strict : Bool} {state next : State workers} {action : Action workers}

/-- The history only grows. -/
theorem Step.history_subset (step : Step strict state action next) :
    state.history ⊆ next.history := by
  cases step with
  | insert | answer | connect => exact List.subset_append_left _ _
  | _ => exact List.Subset.refl _

/-- How a response comes to be sent. -/
theorem Step.sent_cases (step : Step strict state action next) {position : ℕ} {res : Response}
    (sent : Event.sent position res ∈ next.history) : Event.sent position res ∈ state.history ∨
      ∃ connection responses, action = .connect connection responses ∧
        (res, position) ∈ responses.zipIdx ∧
        next.connection connection = .receiving 0 responses := by
  cases step with
  | insert | answer =>
      refine .inl ((List.mem_append.mp sent).resolve_right fun new => ?_)
      cases List.mem_singleton.mp new
  | @connect connection responses closed =>
      apply (List.mem_append.mp sent).imp_right
      intro new
      obtain ⟨⟨_, _⟩, member, same⟩ := List.mem_map.mp new
      cases same
      exact ⟨connection, responses, rfl, member, Function.update_self _ _ _⟩
  | _ => exact .inl sent

/-- How a response comes to be on its way. -/
theorem Step.pending_cases (step : Step strict state action next) {connection : ℕ}
    {pending : Response × ℕ} (member : pending ∈ (next.connection connection).pending) :
    pending ∈ (state.connection connection).pending ∨
      Event.sent pending.2 pending.1 ∈ next.history := by
  have assigned {changed : ℕ} {value : Connection}
      (now : pending ∈ (Function.update state.connection changed value connection).pending) :
      pending ∈ (state.connection connection).pending ∨
        (connection = changed ∧ pending ∈ value.pending) := by
    rw [Function.update_apply] at now
    split_ifs at now with same
    · exact .inr ⟨same, now⟩
    · exact .inl now
  cases step with
  | connect closed =>
      refine (assigned member).imp_right fun ⟨_, new⟩ => List.mem_append_right _ ?_
      exact List.mem_map.mpr ⟨pending, new, rfl⟩
  | disconnect => exact (assigned member).imp_right fun ⟨_, ended⟩ => by cases ended
  | importBatch receiving committed =>
      obtain ⟨rfl, -⟩ := importTxn_eq_ok committed
      rcases assigned member with old | ⟨rfl, rest⟩
      · exact .inl old
      · rw [receiving]
        exact .inl (mem_pending_iff.mpr (.inr rest))
  | restart => cases member
  | _ => exact .inl member

/-! ## What is stored -/

/-- **A response comes to be stored in one of two ways**: a connection had it on its way, or a
worker answers an entry with it. -/
theorem Step.appears (step : Step strict state action next) {time id : ℕ}
    (held : Key.timeIDToResponse time id ∈ next.db)
    (absent : Key.timeIDToResponse time id ∉ state.db) :
    (∃ connection res, action = .importBatch connection false ∧
      (res, id) ∈ (state.connection connection).pending ∧ res.time = time ∧
        Present next.db res id) ∨
    ∃ worker entry res, action = .finish worker none ∧
      next.history = state.history ++ [.answered entry id res] ∧ res.time = time ∧
        Present next.db res id := by
  cases step with
  | insert _ inserted =>
      exact absurd ((mem_iff_of_lookup_eq (inserted.sameResponses.1 _ _)).mp held) absent
  | @answer worker entry newId res _ _ _ committed =>
      have worked := workTxn_eq_ok committed
      obtain ⟨rfl, rfl⟩ := (worked.response_iff.mp held).resolve_right absent
      exact .inr ⟨worker, entry, res, rfl, rfl, rfl, worked.present⟩
  | @importBatch connection _ _ _ _ receiving committed =>
      obtain ⟨rfl, all⟩ := importTxn_eq_ok committed
      obtain ⟨⟨res, position⟩, member, same⟩ := (all.response_iff.mp held).resolve_right absent
      obtain ⟨rfl, rfl⟩ := Prod.ext_iff.mp same
      refine .inl ⟨connection, res, rfl, ?_, rfl, all.present member⟩
      rw [receiving]
      exact mem_pending_iff.mpr (.inl member)
  | _ => exact absurd held absent

/-- A worker has answered an entry with a response, or a client has sent it. -/
def Origin (history : List Event) (res : Response) (id : ℕ) : Prop :=
  (∃ entry, Event.answered entry id res ∈ history) ∨ Event.sent id res ∈ history

/-- **What is stored has an origin**, and what a connection has to store was sent. -/
structure Sourced {workers : ℕ} (state : State workers) : Prop where
  pending : ∀ {connection res position},
    (res, position) ∈ (state.connection connection).pending →
      Event.sent position res ∈ state.history
  stored : ∀ {time id}, Key.timeIDToResponse time id ∈ state.db →
    ∃ res, res.time = time ∧ Present state.db res id ∧ Origin state.history res id

theorem Origin.subset {history later : List Event} {res : Response} {id : ℕ}
    (origin : Origin history res id) (subset : history ⊆ later) : Origin later res id :=
  origin.imp (fun ⟨entry, answered⟩ => ⟨entry, subset answered⟩) fun sent => subset sent

/-- **Every step keeps it.** -/
theorem Sourced.step (sourced : Sourced state) (step : Step strict state action next) :
    Sourced next where
  pending member := by
    rcases step.pending_cases member with old | sent
    · exact step.history_subset (sourced.pending old)
    · exact sent
  stored {time id} held := by
    by_cases before : Key.timeIDToResponse time id ∈ state.db
    · obtain ⟨res, rfl, present, origin⟩ := sourced.stored before
      exact ⟨res, rfl, present.grows step.grows, origin.subset step.history_subset⟩
    · rcases step.appears held before with ⟨_, res, -, member, rfl, present⟩ |
        ⟨_, entry, res, -, history, rfl, present⟩
      · exact ⟨res, rfl, present, .inr (step.history_subset (sourced.pending member))⟩
      · refine ⟨res, rfl, present, .inl ⟨entry, ?_⟩⟩
        rw [history]
        exact List.mem_append_right _ (List.mem_singleton_self _)

end Steps

theorem sourced_start (strict : Bool) (workers : ℕ) : Sourced (server strict workers).start where
  pending member := by cases member
  stored held := absurd held Finmap.notMem_empty

/-- Everything that is stored has an origin, in every reachable state. -/
theorem sourced_of_reaches {strict : Bool} {workers : ℕ}
    {allowed : State workers → Action workers → Prop} {state : State workers}
    (reached : (server strict workers).Reaches allowed state) : Sourced state :=
  invariant_of_reaches (sourced_start strict workers)
    (fun _ sourced _ step => sourced.step step) reached

end HashArchive.Queue
