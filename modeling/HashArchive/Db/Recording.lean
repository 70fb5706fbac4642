import HashArchive.Db.Lookup
import HashArchive.Foundations.FirstOf
import Mathlib.Data.Prod.Lex

/-!
# What was stored

A database built by calls of `hx_response_add`, together with the list of the
responses that were stored, each with its id. `Recorded` says how the two belong
together: the tables agree, every response of the list is in its table as it was
packed, nothing else is, and no two of them have one time and id.

The archive under transactions is such a database (`exists_recording_of_reaches`).
`getResponse_of_recorded` is what every query relies on: the response that is read
under a time and an id is the one that was stored there.
-/

set_option autoImplicit false

namespace HashArchive.Db

open Hash Url

/-- A response and the id it was stored under. -/
abbrev Stored : Type := Response × ℕ

namespace Stored

/-- Where a stored response stands in the order of times and ids. -/
def position (stored : Stored) : ℕ ×ₗ ℕ := toLex (stored.1.time, stored.2)

/-- One response was stored under a later time and id than the other. -/
def Later (first second : Stored) : Prop := second.position < first.position

theorem position_eq_iff {first second : Stored} : first.position = second.position ↔
    first.1.time = second.1.time ∧ first.2 = second.2 := by
  rw [position, position, EmbeddingLike.apply_eq_iff_eq, Prod.mk.injEq]

theorem position_lt_iff {first second : Stored} : first.position < second.position ↔
    first.1.time < second.1.time ∨ first.1.time = second.1.time ∧ first.2 < second.2 :=
  Prod.Lex.toLex_lt_toLex

end Stored

/-- **A slot holds a stored response**: its time and id, and every field that is stored.
A length is a 64-bit number. -/
structure Holds (slot : Response) (stored : Stored) : Prop where
  time : slot.time = stored.1.time
  id : slot.id = stored.2
  url : slot.url = stored.1.url
  status : slot.status = stored.1.status
  type : slot.type = stored.1.type
  length : slot.length = stored.1.length % 2 ^ 64
  digests : slot.digests = stored.1.digests

/-- A database and the responses that were stored in it, the last one first. -/
structure Recording where
  db : Database
  log : List Stored

/-- **The calls of `hx_response_add`**, one after the other. A call that returns an error
stores nothing; a fault ends the process. -/
def recording : Machine Recording Stored where
  start := ⟨∅, []⟩
  step state call :=
    match hxResponseAdd call.1 call.2 state.db with
    | (.ok _, after) => some ⟨after, call :: state.log⟩
    | (.error (.code _), after) => some ⟨after, state.log⟩
    | (.error (.fault _), _) => none

/-- **How a database and the list of what was stored in it belong together.** -/
structure Recorded (state : Recording) : Prop where
  agree : TablesAgree state.db
  present : ∀ {stored}, stored ∈ state.log → Present state.db stored.1 stored.2
  logged : ∀ {time id}, Key.timeIDToResponse time id ∈ state.db →
    ∃ stored ∈ state.log, stored.1.time = time ∧ stored.2 = id
  unique : ∀ {first second : Stored}, first ∈ state.log → second ∈ state.log →
    first.position = second.position → first = second

theorem Present.mem {db : Database} {res : Response} {id : ℕ} (present : Present db res id) :
    Key.timeIDToResponse res.time id ∈ db := by
  obtain ⟨val, -, held⟩ := present
  exact Finmap.mem_iff.mpr ⟨val, held⟩

theorem Present.stores {db : Database} {res : Response} {id : ℕ} (present : Present db res id) :
    Stores db res.time id res.url res.digests := by
  obtain ⟨val, packed, held⟩ := present
  exact ⟨val, held, fun out => ⟨_, unpack_of_pack packed out, rfl, rfl⟩⟩

/-- A call that stores a response adds it to the list. -/
theorem Recorded.add {state : Recording} (recorded : Recorded state) {call : Stored}
    {after : Database} {surt : Str} {val : List Field}
    (added : Added call.1 call.2 state.db after surt val) :
    Recorded ⟨after, call :: state.log⟩ where
  agree := recorded.agree.add added
  present := by
    intro stored member
    rcases List.mem_cons.mp member with rfl | member
    · exact added.present
    · exact (recorded.present member).grows added.grows
  logged := by
    intro time id held
    rcases added.response_iff.mp held with ⟨rfl, rfl⟩ | held
    · exact ⟨call, List.mem_cons_self, rfl, rfl⟩
    · obtain ⟨stored, member, same⟩ := recorded.logged held
      exact ⟨stored, List.mem_cons_of_mem _ member, same⟩
  unique := by
    have fresh (stored : Stored) (member : stored ∈ state.log) :
        stored.position ≠ call.position := by
      intro same
      obtain ⟨time, id⟩ := Stored.position_eq_iff.mp same
      have held := (recorded.present member).mem
      rw [time, id] at held
      exact added.fresh held
    intro first second inFirst inSecond same
    rcases List.mem_cons.mp inFirst with isFirst | oldFirst <;>
      rcases List.mem_cons.mp inSecond with isSecond | oldSecond
    · exact isFirst.trans isSecond.symm
    · exact absurd (same.symm.trans (congrArg Stored.position isFirst)) (fresh second oldSecond)
    · exact absurd (same.trans (congrArg Stored.position isSecond)) (fresh first oldFirst)
    · exact recorded.unique oldFirst oldSecond same

/-- **What one call does.** -/
theorem recording_step {before after : Recording} {call : Stored} (recorded : Recorded before)
    (step : recording.step before call = some after) :
    Recorded after ∧ (after.log = before.log ∨ after.log = call :: before.log) := by
  cases outcome : hxResponseAdd call.1 call.2 before.db with
  | mk result between =>
      simp only [recording, outcome] at step
      rcases result with (rc | fault) | value
      · cases step
        rw [hxResponseAdd_code recorded.agree outcome]
        exact ⟨recorded, .inl rfl⟩
      · cases step
      · cases step
        obtain ⟨surt, val, added⟩ := hxResponseAdd_eq_ok outcome
        exact ⟨recorded.add added, .inr rfl⟩

theorem recorded_start : Recorded recording.start where
  agree := tablesAgree_empty
  present member := by cases member
  logged held := absurd held Finmap.notMem_empty
  unique member := by cases member

/-- Later databases hold more. -/
theorem recorded_of_leads {first last : Recording} (recorded : Recorded first)
    (leads : recording.Leads Machine.anyStep first last) :
    Recorded last ∧ first.log <:+ last.log := by
  induction leads with
  | refl => exact ⟨recorded, List.suffix_refl _⟩
  | tail _ _ step ih =>
      obtain ⟨recordedBefore, earlier⟩ := ih
      obtain ⟨recordedAfter, same | more⟩ := recording_step recordedBefore step
      · exact ⟨recordedAfter, same ▸ earlier⟩
      · exact ⟨recordedAfter, more ▸ earlier.trans (List.suffix_cons _ _)⟩

theorem recorded_of_reaches {state : Recording}
    (reached : recording.Reaches Machine.anyStep state) : Recorded state :=
  (recorded_of_leads recorded_start reached).1

/-! ## Reading -/

theorem getResponse_of_present {db : Database} {stored : Stored}
    (present : Present db stored.1 stored.2) (slot : Response) :
    ∃ res, getResponse slot stored.1.time stored.2 db = (.ok res, db) ∧
      Holds res stored ∧ res.flags = slot.flags ∧ res.next = slot.next ∧
        res.prev = slot.prev := by
  obtain ⟨val, packed, held⟩ := present
  have got : Txn.kvsGet (.timeIDToResponse stored.1.time stored.2) db = (.ok val, db) := by
    rw [Txn.kvsGet, held]
  rw [getResponse, Txn.bind_of_ok got, unpack_of_pack packed, Txn.call_apply]
  exact ⟨_, rfl, ⟨rfl, rfl, rfl, rfl, rfl, rfl, rfl⟩, rfl, rfl, rfl⟩

/-- What is stored has passed the checks. -/
theorem wellFormed_of_recorded {state : Recording} (recorded : Recorded state) {stored : Stored}
    (member : stored ∈ state.log) : stored.1.WellFormed := by
  have present := recorded.present member
  obtain ⟨surt, normalized, -⟩ := recorded.agree.urlKey present.stores
  have hashKey := recorded.agree.hashKey present.stores
  obtain ⟨val, packed, -⟩ := present
  obtain ⟨status, fields, packedDigests, -⟩ := timeIDToResponseValPack_eq_ok.mp packed
  refine ⟨by rw [normalized]; rfl, ⟨status.1, status.2⟩, fun algo => ?_⟩
  by_cases absent : stored.1.digests algo = []
  · exact .inl absent
  · exact .inr ⟨(hashKey algo).1 absent,
      length_le_of_packDigests packedDigests algo (HashAlgo.mem_all algo)⟩

section Reading

variable {state : Recording} (recorded : Recorded state)
include recorded

/-- **A stored response is read as it was stored**, into any slot. -/
theorem getResponse_of_recorded {stored : Stored} (member : stored ∈ state.log) (slot : Response) :
    ∃ res, getResponse slot stored.1.time stored.2 state.db = (.ok res, state.db) ∧
      Holds res stored ∧ res.flags = slot.flags ∧ res.next = slot.next ∧
        res.prev = slot.prev :=
  getResponse_of_present (recorded.present member) slot

/-- The keys of the URL table are those of the stored responses. -/
theorem Recorded.urlKey_iff {surt : Str} {time id : ℕ} :
    Key.urlSurtAndTimeID surt time id ∈ state.db ↔
      ∃ stored ∈ state.log, (stored.1.time = time ∧ stored.2 = id) ∧
        urlNormalizeSurt stored.1.url uriMax = .ok surt := by
  constructor
  · intro held
    obtain ⟨stored, member, rfl, rfl⟩ := recorded.logged (recorded.agree.urlStored held)
    obtain ⟨other, normalized, keys⟩ := recorded.agree.urlKey (recorded.present member).stores
    obtain rfl := (keys surt).mp held
    exact ⟨stored, member, ⟨rfl, rfl⟩, normalized⟩
  · rintro ⟨stored, member, ⟨rfl, rfl⟩, normalized⟩
    obtain ⟨other, sameNormalized, keys⟩ := recorded.agree.urlKey (recorded.present member).stores
    cases normalized.symm.trans sameNormalized
    exact (keys surt).mpr rfl

/-- The keys of a hash table are those of the stored responses that have a digest. -/
theorem Recorded.hashKey_iff {algo : HashAlgo} {hash : List UInt8} {time id : ℕ} :
    Key.algoHashAndTimeID algo hash time id ∈ state.db ↔
      ∃ stored ∈ state.log, (stored.1.time = time ∧ stored.2 = id) ∧
        stored.1.digests algo ≠ [] ∧ hash = (stored.1.digests algo).take hxHashIndexLen := by
  constructor
  · intro held
    obtain ⟨stored, member, rfl, rfl⟩ := recorded.logged (recorded.agree.hashStored held)
    have keys := (recorded.agree.hashKey (recorded.present member).stores algo).2 hash
    exact ⟨stored, member, ⟨rfl, rfl⟩, keys.mp held⟩
  · rintro ⟨stored, member, ⟨rfl, rfl⟩, indexed⟩
    exact ((recorded.agree.hashKey (recorded.present member).stores algo).2 hash).mpr indexed

/-- **A walk over an index** meets the stored responses that belong to its range, in the
order of their keys. -/
theorem Recorded.walk_eq_map {walk : List Key} {before : Key → Key → Prop}
    (sorted : walk.Pairwise before) {belongs : Stored → Prop} {key : Stored → Key}
    (indexed : ∀ held, held ∈ walk ↔
      ∃ stored, (stored ∈ state.log ∧ belongs stored) ∧ key stored = held)
    (position : ∀ first second, key first = key second → first.position = second.position) :
    ∃ all : List Stored, all.map key = walk ∧
      (∀ stored, stored ∈ all ↔ stored ∈ state.log ∧ belongs stored) ∧
      all.Pairwise fun first second => before (key first) (key second) := by
  obtain ⟨all, rfl, sound⟩ := exists_map_eq fun held member => (indexed held).mp member
  refine ⟨all, rfl, fun stored => ⟨sound stored, fun belonging => ?_⟩, List.pairwise_map.mp sorted⟩
  have inIndex := (indexed (key stored)).mpr ⟨stored, belonging, rfl⟩
  obtain ⟨other, member, same⟩ := List.mem_map.mp inIndex
  obtain rfl := recorded.unique (sound other member).1 belonging.1 (position _ _ same)
  exact member

/-- **A loop that reads the response of each key** into the next slot reads as many responses
as there are slots. -/
theorem fill_of_recorded {loop : List Response → List Key → DbTxn (List Response)}
    {key : Stored → Key} (full : ∀ keys, loop [] keys state.db = (.ok [], state.db))
    (ended : ∀ slot slots, loop (slot :: slots) [] state.db = (.ok [], state.db))
    (next : ∀ {slot slots stored keys res rest},
      getResponse slot stored.1.time stored.2 state.db = (.ok res, state.db) →
      loop slots keys state.db = (.ok rest, state.db) →
      loop (slot :: slots) (key stored :: keys) state.db = (.ok (res :: rest), state.db))
    {all : List Stored} (sound : ∀ stored ∈ all, stored ∈ state.log) (slots : List Response) :
    ∃ filled, loop slots (all.map key) state.db = (.ok filled, state.db) ∧
      List.Forall₂ Holds filled (all.take slots.length) := by
  induction all generalizing slots with
  | nil =>
      cases slots with
      | nil => exact ⟨[], full _, .nil⟩
      | cons slot slots => exact ⟨[], ended _ _, .nil⟩
  | cons stored all ih =>
      cases slots with
      | nil => exact ⟨[], full _, .nil⟩
      | cons slot slots =>
          obtain ⟨member, later⟩ := List.forall_mem_cons.mp sound
          obtain ⟨res, got, holds, -⟩ := getResponse_of_recorded recorded member slot
          obtain ⟨rest, done, filled⟩ := ih later slots
          exact ⟨res :: rest, next got done, .cons holds filled⟩

end Reading

/-! ## Transactions -/

/-- The calls of a transaction are calls. -/
theorem leads_of_runCalls {calls : List Stored} {db after : Database} (log : List Stored)
    (done : runCalls calls db = some after) :
    ∃ longer, recording.Leads Machine.anyStep ⟨db, log⟩ ⟨after, longer⟩ := by
  induction calls generalizing db log with
  | nil =>
      cases done
      exact ⟨log, .refl _⟩
  | cons call calls ih =>
      obtain ⟨res, id⟩ := call
      rw [runCalls] at done
      cases outcome : hxResponseAdd res id db with
      | mk result between =>
          rw [outcome] at done
          rcases result with (rc | fault) | value
          · obtain ⟨longer, rest⟩ := ih log done
            have step : recording.step ⟨db, log⟩ (res, id) = some ⟨between, log⟩ := by
              simp only [recording, outcome]
            exact ⟨longer, (Machine.Leads.single trivial step).trans rest⟩
          · cases done
          · obtain ⟨longer, rest⟩ := ih ((res, id) :: log) done
            have step : recording.step ⟨db, log⟩ (res, id) = some ⟨between, (res, id) :: log⟩ := by
              simp only [recording, outcome]
            exact ⟨longer, (Machine.Leads.single trivial step).trans rest⟩

/-- **The archive under transactions** is a database built by calls. -/
theorem exists_recording_of_reaches {db : Database} (reached : archive.Reaches Machine.anyStep db) :
    ∃ log, recording.Reaches Machine.anyStep ⟨db, log⟩ := by
  have start : ∃ log, recording.Reaches Machine.anyStep ⟨∅, log⟩ :=
    ⟨[], @Machine.Leads.refl _ _ recording _ _⟩
  refine @Machine.Reaches.invariant _ _ _ _
    (fun db => ∃ log, recording.Reaches Machine.anyStep ⟨db, log⟩) start ?_ _ reached
  rintro before txn next ⟨log, earlier⟩ - step
  cases step
  cases calls : runCalls txn.calls before with
  | none => exact ⟨log, earlier⟩
  | some after =>
      by_cases committed : txn.committed = true
      · obtain ⟨longer, leads⟩ := leads_of_runCalls log calls
        refine ⟨longer, ?_⟩
        simp only [committed, if_true]
        exact Machine.Leads.trans earlier leads
      · simp only [committed]
        exact ⟨log, earlier⟩

/-! ## The sample -/

/-- The sample is stored. -/
theorem exists_recording_sample : ∃ state, recording.Reaches Machine.anyStep state ∧
    state.log = [(.sample, 3)] := by
  have computed : ((recording.run Machine.anyStep recording.start [(.sample, 3)]).map fun state =>
      decide (state.log = [(.sample, 3)])) = some true := by decide +kernel
  obtain ⟨state, reached, logged⟩ := Machine.reaches_of_run computed
  exact ⟨state, reached, of_decide_eq_true logged⟩

/-- The sample is stored under two ids. -/
theorem exists_recording_samples : ∃ state, recording.Reaches Machine.anyStep state ∧
    state.log = [(.sample, 4), (.sample, 3)] := by
  have computed : ((recording.run Machine.anyStep recording.start
      [(.sample, 3), (.sample, 4)]).map fun state =>
        decide (state.log = [(.sample, 4), (.sample, 3)])) = some true := by decide +kernel
  obtain ⟨state, reached, logged⟩ := Machine.reaches_of_run computed
  exact ⟨state, reached, of_decide_eq_true logged⟩

end HashArchive.Db
