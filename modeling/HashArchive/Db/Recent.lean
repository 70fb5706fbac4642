import HashArchive.Db.Times

/-!
# The recent responses

`hx_get_recent` walks the response table from the greatest time and id down. It reads each
response into the next slot and keeps it there when its status is 200 and its URL is not
that of a slot before; otherwise the slot is used again. `recent_exact` says that what is
kept are the first of the successful responses with different URLs, newest first, each as
it was stored.
-/

set_option autoImplicit false

namespace HashArchive.Db

/-! ## The function -/

/-- The loop of `hx_get_recent`, with the slots that are filled and those that are free. -/
def recentLoop (filled : List Response) : List Response → List Key → DbTxn (List Response)
  | [], _ => pure filled
  | _ :: _, [] => pure filled
  | slot :: slots, key :: keys => do
    let (time, id) ← Txn.call (timeIDToResponseKeyUnpack key)
    let res ← getResponse slot time id
    -- Don't list failed responses.
    if 200 ≠ res.status then recentLoop filled (res :: slots) keys
    -- Skip duplicate URLs.
    else if filled.any fun earlier => earlier.url = res.url then
      recentLoop filled (res :: slots) keys
    else recentLoop (filled ++ [res]) slots keys

/-- `hx_get_recent`, into the slots of `out`. -/
def hxGetRecent (out : List Response) : DbTxn (List Response) := do
  Txn.call (assertThat (out.length > 0))
  let keys ← Txn.kvsKeysr timeIDToResponseRange0
  recentLoop [] out keys

/-! ## What is listed -/

/-- A response that is not a failed one. -/
def Stored.succeeded (stored : Stored) : Bool := stored.1.status = 200

/-- Responses of one URL. -/
def Stored.sameUrl (first second : Stored) : Bool := first.1.url = second.1.url

/-- The successful responses of a list, of each URL the first. -/
def firstOfUrls (all : List Stored) : List Stored :=
  (all.filter Stored.succeeded).eraseDupsBy Stored.sameUrl

/-- A response that the loop keeps when some are kept already. -/
def isCandidate (kept : List Stored) (stored : Stored) : Bool :=
  stored.succeeded && !kept.any stored.sameUrl

/-- The responses of a list that the loop can still keep. -/
def candidates (kept all : List Stored) : List Stored := all.filter (isCandidate kept)

theorem candidates_nil (all : List Stored) :
    (candidates [] all).eraseDupsBy Stored.sameUrl = firstOfUrls all := by
  have test : isCandidate [] = Stored.succeeded := by
    funext stored
    simp [isCandidate]
  rw [candidates, test, firstOfUrls]

section Candidates

variable {kept all : List Stored} {stored : Stored}

theorem candidates_cons_of_not (rejected : ¬ isCandidate kept stored = true) :
    candidates kept (stored :: all) = candidates kept all :=
  List.filter_cons_of_neg rejected

/-- A response that is kept is the first of its URL. -/
theorem eraseDups_candidates_cons (accepted : isCandidate kept stored = true) :
    (candidates kept (stored :: all)).eraseDupsBy Stored.sameUrl =
      stored :: (candidates (kept ++ [stored]) all).eraseDupsBy Stored.sameUrl := by
  rw [candidates, List.filter_cons_of_pos accepted, List.eraseDupsBy_cons, List.filter_filter,
    candidates]
  congr 2
  apply List.filter_congr
  intro other _
  simp only [isCandidate, List.any_append, List.any_cons, List.any_nil, Bool.or_false, Bool.not_or]
  cases other.sameUrl stored <;> simp

end Candidates

/-- A response that is read is compared with the slots as with what they hold. -/
theorem any_url_of_holds {filled : List Response} {kept : List Stored} {res : Response}
    {stored : Stored} (held : List.Forall₂ Holds filled kept) (holds : Holds res stored) :
    (filled.any fun earlier => earlier.url = res.url) = kept.any stored.sameUrl := by
  induction held with
  | nil => rfl
  | cons first _ ih =>
      rw [List.any_cons, List.any_cons, ih, first.url, holds.url]
      simp only [Stored.sameUrl, eq_comm]

section Recent

variable {state : Recording} (recorded : Recorded state)
include recorded

/-- The stored responses, latest first, are those that the response table lists. -/
theorem exists_response_listing :
    ∃ all : List Stored, all.map responseKey = state.db.descending timeIDToResponseRange0 ∧
      (∀ stored, stored ∈ all ↔ stored ∈ state.log) ∧ all.Pairwise Stored.Later := by
  have indexed (held : Key) : held ∈ state.db.descending timeIDToResponseRange0 ↔
      ∃ stored : Stored, (stored ∈ state.log ∧ True) ∧ responseKey stored = held := by
    rw [Store.mem_descending]
    constructor
    · rintro ⟨inTable, inRange⟩
      obtain ⟨heldTime, heldId, rfl⟩ := timeIDToResponseRange0_iff.mp inRange
      obtain ⟨stored, member, rfl, rfl⟩ := recorded.logged inTable
      exact ⟨stored, ⟨member, trivial⟩, rfl⟩
    · rintro ⟨stored, ⟨member, -⟩, rfl⟩
      exact ⟨(recorded.present member).mem, timeIDToResponseRange0_iff.mpr ⟨_, _, rfl⟩⟩
  obtain ⟨all, keys, members, sorted⟩ := recorded.walk_eq_map Store.pairwise_descending indexed (by
    intro first second same
    simpa [responseKey, Stored.position_eq_iff] using same)
  exact ⟨all, keys, fun stored => (members stored).trans (and_iff_left trivial),
    sorted.imp Key.timeIDToResponse_lt_iff.mp⟩

/-- **The loop keeps the first candidates**, one for each free slot. -/
theorem recentLoop_of_recorded {all : List Stored} (sound : ∀ stored ∈ all, stored ∈ state.log)
    {filled : List Response} {kept : List Stored} (held : List.Forall₂ Holds filled kept)
    (slots : List Response) :
    ∃ listed, recentLoop filled slots (all.map responseKey) state.db = (.ok listed, state.db) ∧
      List.Forall₂ Holds listed
        (kept ++ ((candidates kept all).eraseDupsBy Stored.sameUrl).take slots.length) := by
  induction all generalizing filled kept slots with
  | nil =>
      cases slots with
      | nil => exact ⟨filled, rfl, by simpa [candidates] using held⟩
      | cons slot slots => exact ⟨filled, rfl, by simpa [candidates] using held⟩
  | cons stored all ih =>
      cases slots with
      | nil => exact ⟨filled, rfl, by simpa using held⟩
      | cons slot slots =>
          obtain ⟨member, later⟩ := List.forall_mem_cons.mp sound
          obtain ⟨res, got, holds, -⟩ := getResponse_of_recorded recorded member slot
          have unpacked : Txn.call (timeIDToResponseKeyUnpack (responseKey stored)) state.db =
              (.ok (stored.1.time, stored.2), state.db) := rfl
          have duplicate := any_url_of_holds held holds
          simp only [List.map_cons, recentLoop, Txn.bind_of_ok unpacked, Txn.bind_of_ok got]
          by_cases failed : 200 ≠ res.status
          · have rejected : ¬ (stored.succeeded && !kept.any stored.sameUrl) = true := by
              rw [holds.status] at failed
              simp [Stored.succeeded, failed.symm]
            rw [if_pos failed, candidates_cons_of_not rejected]
            exact ih later held (res :: slots)
          rw [if_neg failed, duplicate]
          rw [not_not, holds.status] at failed
          cases seen : kept.any stored.sameUrl with
          | true =>
              rw [if_pos rfl, candidates_cons_of_not (by simp [isCandidate, seen])]
              exact ih later held (res :: slots)
          | false =>
              have accepted : isCandidate kept stored = true := by
                simp [isCandidate, Stored.succeeded, ← failed, seen]
              have longer : List.Forall₂ Holds (filled ++ [res]) (kept ++ [stored]) :=
                List.rel_append held (.cons holds .nil)
              rw [if_neg (by decide), eraseDups_candidates_cons accepted, List.length_cons,
                List.take_succ_cons, List.append_cons kept]
              exact ih later longer slots

end Recent

/-- **The recent list is exact.** `hx_get_recent` fills its slots with the first of the
stored responses that succeeded, in descending order of time and id and of each URL the
newest, each as it was stored. -/
theorem recent_exact {state : Recording} (reached : recording.Reaches Machine.anyStep state)
    {out : List Response} (room : 0 < out.length) :
    ∃ all filled, ((∀ stored, stored ∈ all ↔ stored ∈ state.log) ∧ all.Pairwise Stored.Later) ∧
      hxGetRecent out state.db = (.ok filled, state.db) ∧
      List.Forall₂ Holds filled ((firstOfUrls all).take out.length) := by
  have recorded := recorded_of_reaches reached
  obtain ⟨all, keys, members, sorted⟩ := exists_response_listing recorded
  obtain ⟨filled, done, holds⟩ := recentLoop_of_recorded recorded
    (fun stored inAll => (members stored).mp inAll) .nil out
  refine ⟨all, filled, ⟨members, sorted⟩, ?_, ?_⟩
  · rw [hxGetRecent, Txn.assert_bind room, Txn.keysr_bind, ← keys, done]
  · rwa [List.nil_append, candidates_nil] at holds

/-- The sample is stored twice under different ids, and listed once. -/
theorem recent_exact_sample : ∃ state all filled,
    recording.Reaches Machine.anyStep state ∧ state.log = [(.sample, 4), (.sample, 3)] ∧
    hxGetRecent [.blank, .blank] state.db = (.ok filled, state.db) ∧
    List.Forall₂ Holds filled ((firstOfUrls all).take 2) := by
  obtain ⟨state, reached, logged⟩ := exists_recording_samples
  obtain ⟨all, filled, -, done, holds⟩ :=
    recent_exact reached (show 0 < [Response.blank, Response.blank].length by decide)
  exact ⟨state, all, filled, reached, logged, done, holds⟩

end HashArchive.Db
