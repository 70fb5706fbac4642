import HashArchive.Db.Recording
import HashArchive.Foundations.Paging

/-!
# Responses by time

The response table is ordered by time and id. `hx_get_times` seeks a time and an id in
it and reads the responses from there on, until its array is full. `hxGetTimes_of_recorded`
says that it answers a page of the responses that are stored.
-/

set_option autoImplicit false

namespace HashArchive.Db

/-! ## The response table -/

/-- `HXTimeIDToResponseKeyUnpack`. -/
def timeIDToResponseKeyUnpack : Key → Result (ℕ × ℕ)
  | .timeIDToResponse time id => .ok (time, id)
  | _ => .error (.fault .assertion)

theorem timeIDToResponseRange0_iff {key : Key} :
    timeIDToResponseRange0 key ↔ ∃ time id, key = .timeIDToResponse time id := by
  cases key with
  | algoHashAndTimeID algo hash time id =>
      simp [timeIDToResponseRange0, rangeOf, bindsFirst, Key.fields]
      omega
  | _ => simp [timeIDToResponseRange0, rangeOf, bindsFirst, Key.fields]

/-- Responses are ordered by time and id. -/
theorem Key.timeIDToResponse_lt_iff {time id otherTime otherId : ℕ} :
    timeIDToResponse time id < timeIDToResponse otherTime otherId ↔
      toLex (time, id) < toLex (otherTime, otherId) := by
  rw [lt_iff_rank_lt, Prod.Lex.toLex_lt_toLex]
  simp [rank, fields, Field.rank, List.cons_lt_cons_iff]

/-- The key of a stored response in the response table. -/
def responseKey (stored : Stored) : Key := .timeIDToResponse stored.1.time stored.2

/-! ## The function -/

/-- The loop of `hx_get_times`. The cursor gives the value of a key with the key. -/
def timesLoop : List Response → List Key → DbTxn (List Response)
  | [], _ => pure []
  | _ :: _, [] => pure []
  | slot :: slots, key :: keys => do
    let (xtime, xid) ← Txn.call (timeIDToResponseKeyUnpack key)
    let res ← getResponse slot xtime xid
    let rest ← timesLoop slots keys
    pure (res :: rest)

/-- `hx_get_times`, upwards, into the slots of `out`. -/
def hxGetTimes (time id : ℕ) (out : List Response) : DbTxn (List Response) := do
  let keys ← Txn.kvsSeekKeysr timeIDToResponseRange0 (.timeIDToResponse time id)
  timesLoop out keys

section Times

variable {state : Recording} (recorded : Recorded state)
include recorded

/-- The responses from a time and id on, in the order of their table. -/
theorem exists_time_listing (time id : ℕ) :
    ∃ all : List Stored, all.map responseKey = state.db.ascending (fun held =>
        timeIDToResponseRange0 held ∧ Key.timeIDToResponse time id ≤ held) ∧
      (∀ stored, stored ∈ all ↔ stored ∈ state.log ∧ toLex (time, id) ≤ stored.position) ∧
      all.Pairwise fun first second => first.position < second.position := by
  have indexed (held : Key) : held ∈ state.db.ascending (fun held =>
        timeIDToResponseRange0 held ∧ Key.timeIDToResponse time id ≤ held) ↔
      ∃ stored : Stored, (stored ∈ state.log ∧ toLex (time, id) ≤ stored.position) ∧
        responseKey stored = held := by
    rw [Store.mem_ascending]
    constructor
    · rintro ⟨inTable, inRange, fromThere⟩
      obtain ⟨heldTime, heldId, rfl⟩ := timeIDToResponseRange0_iff.mp inRange
      obtain ⟨stored, member, rfl, rfl⟩ := recorded.logged inTable
      rw [← not_lt, Key.timeIDToResponse_lt_iff, not_lt] at fromThere
      exact ⟨stored, ⟨member, fromThere⟩, rfl⟩
    · rintro ⟨stored, ⟨member, fromThere⟩, rfl⟩
      refine ⟨(recorded.present member).mem, timeIDToResponseRange0_iff.mpr ⟨_, _, rfl⟩, ?_⟩
      rw [responseKey, ← not_lt, Key.timeIDToResponse_lt_iff, not_lt]
      exact fromThere
  obtain ⟨all, keys, members, sorted⟩ := recorded.walk_eq_map Store.pairwise_ascending indexed (by
    intro first second same
    simpa [responseKey, Stored.position_eq_iff] using same)
  exact ⟨all, keys, members, sorted.imp Key.timeIDToResponse_lt_iff.mp⟩

/-- **The loop reads as many responses as there are slots.** -/
theorem timesLoop_of_recorded {all : List Stored} (sound : ∀ stored ∈ all, stored ∈ state.log)
    (slots : List Response) :
    ∃ filled, timesLoop slots (all.map responseKey) state.db = (.ok filled, state.db) ∧
      List.Forall₂ Holds filled (all.take slots.length) := by
  refine fill_of_recorded recorded (fun _ => rfl) (fun _ _ => rfl) ?_ sound slots
  intro slot slots stored keys res rest got done
  have unpacked : Txn.call (timeIDToResponseKeyUnpack (responseKey stored)) state.db =
      (.ok (stored.1.time, stored.2), state.db) := rfl
  simp only [timesLoop, Txn.bind_of_ok unpacked, Txn.bind_of_ok got, Txn.bind_of_ok done,
    Txn.pure_apply]

/-- **`hx_get_times` answers a page** of the stored responses. -/
theorem hxGetTimes_of_recorded (time id : ℕ) (out : List Response) :
    ∃ filled page, hxGetTimes time id out state.db = (.ok filled, state.db) ∧
      List.Forall₂ Holds filled page ∧
      IsPage Stored.position out.length (fun stored => stored ∈ state.log) (toLex (time, id))
        page := by
  obtain ⟨all, keys, members, sorted⟩ := exists_time_listing recorded time id
  obtain ⟨filled, done, holds⟩ := timesLoop_of_recorded recorded
    (fun stored inAll => ((members stored).mp inAll).1) out
  refine ⟨filled, all.take out.length, ?_, holds, ?_⟩
  · rw [hxGetTimes, Txn.seekKeysr_bind, ← keys, done]
  · have first := firstOf_take_filter sorted (fun _ => true) out.length
    rw [List.filter_true] at first
    exact first.congr fun stored => by rw [members, and_iff_left rfl]

end Times

end HashArchive.Db
