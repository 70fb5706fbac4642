import HashArchive.Queue.Answers

/-!
# The crawl delay

The delay is checked when an entry is inserted, against the latest response stored
for its SURT, with a time that the caller read before; the response gets its own time
later, when a worker fetches it. `Delayed` joins the two: a queued entry is due, its
time lies more than the delay after every answer for its SURT, and a response that
was fetched for an entry is not earlier than the entry. So the answers for one SURT
are spaced (`crawl_delay_honoured`), as long as the clock does not run backwards and
the sum that the check computes does not wrap around.
-/

set_option autoImplicit false

namespace HashArchive.Queue

open Db Hash Url

/-! ## Runs with a clock -/

/-- The time in the key of a response. -/
def responseTime : Key → Option ℕ
  | .timeIDToResponse time _ => some time
  | _ => none

/-- All stored times lie below a bound. -/
def StoredTimesBelow (db : Database) (bound : ℕ) : Prop :=
  ∀ key ∈ db.keys, ∀ time ∈ responseTime key, time < bound

/-- The clock runs forward, and no stored time is so large that adding the delay wraps. -/
def Timely {workers : ℕ} (state : State workers) (action : Action workers) : Prop :=
  ClockForward state action ∧ StoredTimesBelow state.db (2 ^ 64 - configCrawlDelaySeconds)

instance (db : Database) (bound : ℕ) : Decidable (StoredTimesBelow db bound) :=
  inferInstanceAs (Decidable (∀ key ∈ db.keys, ∀ time ∈ responseTime key, time < bound))

instance {workers : ℕ} (state : State workers) (action : Action workers) :
    Decidable (Timely state action) := inferInstanceAs (Decidable (_ ∧ _))

/-! ## The invariant -/

/-- A worker stored a response with some time for a URL of some SURT. -/
def AnsweredAt (history : List Event) (surt : Str) (time : ℕ) : Prop :=
  ∃ entry newId res, Event.answered entry newId res ∈ history ∧
    urlNormalizeSurt res.url uriMax = .ok surt ∧ res.time = time

/-- The times of two answers for one SURT are more than the delay apart. -/
def Spaced (first second : Event) : Prop :=
  ∀ entry newId res other otherId otherRes surt, first = .answered entry newId res →
    second = .answered other otherId otherRes → urlNormalizeSurt res.url uriMax = .ok surt →
    urlNormalizeSurt otherRes.url uriMax = .ok surt →
    res.time + configCrawlDelaySeconds < otherRes.time

/-- Queued entries are due, and answers are indexed and spaced. -/
structure AnswersSpaced (db : Database) (history : List Event) : Prop where
  due : ∀ {entry surt time}, Queued db entry → urlNormalizeSurt entry.url uriMax = .ok surt →
    AnsweredAt history surt time → time + configCrawlDelaySeconds < entry.time
  indexed : ∀ {surt time}, AnsweredAt history surt time →
    ∃ id, Key.urlSurtAndTimeID surt time id ∈ db
  spaced : history.Pairwise Spaced

/-- What a caller has read lies in the past. -/
def Caller.ReadBy (clock : ℕ) : Caller → Prop
  | .called now _ => now ≤ clock
  | .numbered _ entry => entry.time ≤ clock
  | _ => True

/-- **What a run with a clock keeps.** -/
structure Delayed {workers : ℕ} (state : State workers) : Prop where
  callers : ∀ caller, (state.caller caller).ReadBy state.clock
  queued : ∀ {entry}, Queued state.db entry → entry.time ≤ state.clock
  fetched : ∀ {worker entry newId res}, state.worker worker = .fetched entry newId res →
    entry.time ≤ res.time
  answers : AnswersSpaced state.db state.history

section Steps

variable {workers : ℕ} {strict : Bool} {state next : State workers} {action : Action workers}

theorem Delayed.callers_step (delayed : Delayed state) (forward : ClockForward state action)
    (step : Step strict state action next) (caller : ℕ) :
    (next.caller caller).ReadBy next.clock := by
  have assigned {changed : ℕ} {value : Caller} (ready : value.ReadBy state.clock) :
      (Function.update state.caller changed value caller).ReadBy state.clock := by
    rw [Function.update_apply]
    split_ifs
    · exact ready
    · exact delayed.callers caller
  cases step with
  | tick time =>
      have read := delayed.callers caller
      show (state.caller caller).ReadBy time
      cases stage : state.caller caller with
      | called now url =>
          rw [stage] at read
          exact read.trans forward
      | numbered surt entry =>
          rw [stage] at read
          exact read.trans forward
      | idle | committed => trivial
  | call => exact assigned le_rfl
  | @number changed now url surt called =>
      have read := delayed.callers changed
      rw [called] at read
      exact assigned read
  | leave | insert | broadcast => exact assigned trivial
  | restart => trivial
  | _ => exact delayed.callers caller

/-- The clock of the next state is not earlier. -/
theorem Step.clock_le (forward : ClockForward state action) (step : Step strict state action next) :
    state.clock ≤ next.clock := by
  cases step with
  | tick time => exact forward
  | _ => exact le_rfl

theorem Delayed.queued_step (delayed : Delayed state) (forward : ClockForward state action)
    (step : Step strict state action next) {entry : Entry} (queued : Queued next.db entry) :
    entry.time ≤ next.clock := by
  by_cases before : Queued state.db entry
  · exact (delayed.queued before).trans (step.clock_le forward)
  · cases step with
    | @insert caller surt inserting after numbered inserted =>
        obtain rfl := ((inserted.queued_iff entry).mp queued).resolve_right before
        have read := delayed.callers caller
        rw [numbered] at read
        exact read
    | answer fetched committed =>
        exact absurd (((workTxn_eq_ok committed).queued_iff entry).mp queued).1 before
    | importBatch receiving committed =>
        exact absurd (((importTxn_eq_ok committed).2.sameQueue.queued entry).mp queued) before
    | _ => exact absurd queued before

theorem Delayed.fetched_step (delayed : Delayed state) (sound : Sound state)
    (step : Step strict state action next) {worker : Fin workers} {entry : Entry} {newId : ℕ}
    {res : Response} (fetched : next.worker worker = .fetched entry newId res) :
    entry.time ≤ res.time := by
  rcases step.fetched_cases fetched with before | ⟨fetching, content, -, rfl⟩
  · exact delayed.fetched before
  · exact delayed.queued (sound.held_queued (congrArg Worker.held fetching))

end Steps

/-! ## Answers -/

section Answers

variable {db after : Database} {history : List Event}

/-- Events that answer nothing. -/
def Quiet (events : List Event) : Prop :=
  ∀ event ∈ events, ∀ entry newId res, event ≠ .answered entry newId res

theorem Quiet.answeredAt_iff {events : List Event} (quiet : Quiet events) {surt : Str} {time : ℕ} :
    AnsweredAt (history ++ events) surt time ↔ AnsweredAt history surt time := by
  constructor
  · rintro ⟨entry, newId, res, member, rest⟩
    rcases List.mem_append.mp member with member | member
    · exact ⟨entry, newId, res, member, rest⟩
    · exact absurd rfl (quiet _ member entry newId res)
  · rintro ⟨entry, newId, res, member, rest⟩
    exact ⟨entry, newId, res, List.mem_append_left _ member, rest⟩

theorem Quiet.spaced {events : List Event} (quiet : Quiet events)
    (spaced : history.Pairwise Spaced) : (history ++ events).Pairwise Spaced := by
  have late (first second : Event) (member : second ∈ events) : Spaced first second := by
    rintro entry newId res other otherId otherRes surt - rfl
    exact absurd rfl (quiet _ member other otherId otherRes)
  exact List.pairwise_append.mpr ⟨spaced,
    List.pairwise_of_forall_mem_list fun first _ second => late first second,
    fun first _ second => late first second⟩

/-- A step that answers nothing and queues no entry that is not due. -/
theorem AnswersSpaced.of_quiet (answers : AnswersSpaced db history) (grows : Grows db after)
    {events : List Event} (quiet : Quiet events)
    (due : ∀ {entry}, Queued after entry → ¬ Queued db entry → ∀ {surt time},
      urlNormalizeSurt entry.url uriMax = .ok surt → AnsweredAt history surt time →
      time + configCrawlDelaySeconds < entry.time) :
    AnswersSpaced after (history ++ events) where
  due := by
    intro entry surt time queued normalized answered
    rw [quiet.answeredAt_iff] at answered
    by_cases before : Queued db entry
    · exact answers.due before normalized answered
    · exact due queued before normalized answered
  indexed := by
    intro surt time answered
    rw [quiet.answeredAt_iff] at answered
    obtain ⟨id, held⟩ := answers.indexed answered
    exact ⟨id, grows.urlKey held⟩
  spaced := quiet.spaced answers.spaced

/-- **An entry that is inserted is due.** -/
theorem AnswersSpaced.due_of_inserted (answers : AnswersSpaced db history) (agree : TablesAgree db)
    (below : StoredTimesBelow db (2 ^ 64 - configCrawlDelaySeconds)) {surt : Str} {entry : Entry}
    (inserted : Inserted surt entry db after) {time : ℕ} (answered : AnsweredAt history surt time) :
    time + configCrawlDelaySeconds < entry.time := by
  obtain ⟨id, indexed⟩ := answers.indexed answered
  obtain ⟨ltime, lid, held, latest, due⟩ := inserted.due time id indexed
  have bounded := below _ (Finmap.mem_keys.mpr (agree.urlStored held)) ltime rfl
  rw [Nat.mod_eq_of_lt (by omega)] at due
  omega

/-- **An answer that is not earlier than its entry is spaced from the others.** -/
theorem AnswersSpaced.answer (answers : AnswersSpaced db history) (mirror : Mirror db)
    {entry : Entry} {newId : ℕ} {res : Response} (queued : Queued db entry)
    (url : res.url = entry.url) (later : entry.time ≤ res.time)
    (worked : Worked entry res newId db after) :
    AnswersSpaced after (history ++ [.answered entry newId res]) where
  due := by
    intro other text time queuedAfter normalized answered
    obtain ⟨queuedOther, different⟩ := (worked.queued_iff other).mp queuedAfter
    obtain ⟨_, _, otherRes, member, sameSurt, rfl⟩ := answered
    rcases List.mem_append.mp member with member | new
    · exact answers.due queuedOther normalized ⟨_, _, _, member, sameSurt, rfl⟩
    · -- Another queued entry has another SURT.
      cases List.mem_singleton.mp new
      obtain ⟨_, accepted, -⟩ := mirror.forward queued
      obtain ⟨_, acceptedOther, -⟩ := mirror.forward queuedOther
      obtain rfl := accepted.unique (url ▸ sameSurt)
      obtain rfl := acceptedOther.unique normalized
      exact absurd (mirror.single queuedOther queued acceptedOther accepted) different
  indexed := by
    rintro text time ⟨_, _, otherRes, member, normalized, rfl⟩
    rcases List.mem_append.mp member with member | new
    · obtain ⟨id, held⟩ := answers.indexed ⟨_, _, _, member, normalized, rfl⟩
      exact ⟨id, worked.grows.urlKey held⟩
    · cases List.mem_singleton.mp new
      exact ⟨newId, worked.urlKey normalized⟩
  spaced := by
    refine List.pairwise_append.mpr ⟨answers.spaced, List.pairwise_singleton _ _, ?_⟩
    rintro first member _ new other otherId otherRes _ _ _ text rfl last normalized sameSurt
    obtain rfl := List.mem_singleton.mp new
    cases last
    have due := answers.due queued (url ▸ sameSurt) ⟨_, _, _, member, normalized, rfl⟩
    omega

end Answers

/-! ## Runs -/

theorem Delayed.answers_step {workers : ℕ} {strict : Bool} {state next : State workers}
    {action : Action workers} (delayed : Delayed state) (sound : Sound state)
    (below : StoredTimesBelow state.db (2 ^ 64 - configCrawlDelaySeconds))
    (step : Step strict state action next) : AnswersSpaced next.db next.history := by
  have grows := step.grows
  have same {after : Database} (sameQueue : SameQueue state.db after) {entry : Entry}
      (queued : Queued after entry) (absent : ¬ Queued state.db entry) {surt : Str} {time : ℕ}
      (_ : urlNormalizeSurt entry.url uriMax = .ok surt) (_ : AnsweredAt state.history surt time) :
      time + configCrawlDelaySeconds < entry.time :=
    absurd ((sameQueue.queued entry).mp queued) absent
  cases step with
  | insert numbered inserted =>
      have accepted := sound.accepted numbered
      refine delayed.answers.of_quiet grows (by simp [Quiet]) fun {other} queued absent _ _
        normalized answered => ?_
      obtain rfl := ((inserted.queued_iff other).mp queued).resolve_right absent
      obtain rfl := accepted.unique normalized
      exact delayed.answers.due_of_inserted sound.agree below inserted answered
  | answer fetched committed =>
      have queued := sound.held_queued (congrArg Worker.held fetched)
      exact delayed.answers.answer sound.mirror queued (sound.fetched fetched)
        (delayed.fetched fetched) (workTxn_eq_ok committed)
  | connect closed =>
      refine delayed.answers.of_quiet grows ?_ (same (SameQueue.refl _))
      rintro event member entry newId res rfl
      obtain ⟨sent, -, absurd⟩ := List.mem_map.mp member
      cases absurd
  | importBatch receiving committed =>
      have sameQueue := (importTxn_eq_ok committed).2.sameQueue
      exact List.append_nil state.history ▸
        delayed.answers.of_quiet grows (by simp [Quiet]) (same sameQueue)
  | _ => exact delayed.answers

theorem delayed_start (strict : Bool) (workers : ℕ) : Delayed (server strict workers).start where
  callers _ := trivial
  queued queued := absurd queued Finmap.notMem_empty
  fetched fetched := by cases fetched
  answers := {
    due := fun queued => absurd queued Finmap.notMem_empty
    indexed := by
      rintro _ _ ⟨_, _, _, member, _⟩
      cases member
    spaced := .nil }

/-- **The crawl delay is honoured.** In a run whose clock does not run backwards, and
in which no stored time is within the delay of `2 ^ 64`, any two responses that
workers stored for URLs with one SURT have times more than the delay apart. What is stored
otherwise than by an import is among them. -/
theorem crawl_delay_honoured {strict : Bool} {workers : ℕ} {state : State workers}
    (reached : (server strict workers).Reaches Timely state) :
    state.history.Pairwise Spaced ∧
    ∀ action next, (server strict workers).step state action = some next →
      (∀ connection failing, action ≠ .importBatch connection failing) →
      ∀ time id, Key.timeIDToResponse time id ∈ next.db →
        Key.timeIDToResponse time id ∉ state.db →
        ∃ entry res, next.history = state.history ++ [.answered entry id res] ∧
          res.time = time ∧ Present next.db res id := by
  have delayed : Delayed state := invariant_of_reaches (delayed_start strict workers)
    (fun sound delayed timely step => {
      callers := delayed.callers_step timely.1 step
      queued := delayed.queued_step timely.1 step
      fetched := delayed.fetched_step sound step
      answers := delayed.answers_step sound timely.2 step }) reached
  exact ⟨delayed.answers.spaced, fun _ _ enabled notImport _ _ =>
    (step_of_eq_some enabled).logged notImport⟩

/-- One request and its crawl, by one client and one worker. -/
def crawlOnce (client : ℕ) (worker : Fin 16) (url : Str) : List (Action 16) :=
  [.call client url, .takeId client, .transact client false, .lock worker, .peek worker false,
    .claim worker, .broadcast client, .allocate worker, .fetch worker .empty, .finish worker none]

/-- A page that is crawled again one second after the delay. -/
theorem crawl_delay_honoured_again : ∃ state, (server false 16).Reaches Timely state ∧
    (state.history.filterMap Event.storedKey = [(100, 1), (86501, 3)]) ∧
    state.history.Pairwise Spaced := by
  have computed : ((server false 16).run Timely (server false 16).start
      (.tick 100 :: crawlOnce 0 3 "http://a.b/".toList ++
        .tick 86501 :: crawlOnce 1 5 "http://A.b/".toList)).map
      (fun state => decide (state.history.filterMap Event.storedKey = [(100, 1), (86501, 3)])) =
        some true := by
    decide +kernel
  obtain ⟨state, reached, stored⟩ := Machine.reaches_of_run computed
  exact ⟨state, reached, of_decide_eq_true stored, (crawl_delay_honoured reached).1⟩

end HashArchive.Queue
