import HashArchive.Db.Merging
import HashArchive.Db.Recording

/-!
# The history of a URL

`hx_get_history` walks the keys of one SURT from the greatest time and id down and
reads the response each of them names, until its array is full. `history_exact` says
that it answers the latest responses whose URL has that SURT, latest first, each as
it was stored.
-/

set_option autoImplicit false

namespace HashArchive.Db

open Url

/-- The key of a stored response in the URL table. -/
def surtKey (surt : Str) (stored : Stored) : Key :=
  .urlSurtAndTimeID surt stored.1.time stored.2

theorem surtKey_lt_iff {surt : Str} {first second : Stored} :
    surtKey surt first < surtKey surt second ↔ first.position < second.position :=
  Key.urlSurtAndTimeID_lt_iff.trans Stored.position_lt_iff.symm

section History

variable {state : Recording} (recorded : Recorded state)
include recorded

/-- **The loop reads as many responses as there are slots.** -/
theorem historyLoop_of_recorded (surt : Str) {all : List Stored}
    (sound : ∀ stored ∈ all, stored ∈ state.log) (slots : List Response) :
    ∃ filled, historyLoop slots (all.map (surtKey surt)) state.db = (.ok filled, state.db) ∧
      List.Forall₂ Holds filled (all.take slots.length) := by
  refine fill_of_recorded recorded (fun _ => rfl) (fun _ _ => rfl) ?_ sound slots
  intro slot slots stored keys res rest got done
  have unpacked : Txn.call (urlSurtAndTimeIDKeyUnpack (surtKey surt stored)) state.db =
      (.ok (surt, stored.1.time, stored.2), state.db) := rfl
  simp only [historyLoop, Txn.bind_of_ok unpacked, Txn.bind_of_ok got, Txn.bind_of_ok done,
    Txn.pure_apply]

/-- The responses of one SURT, latest first, are those that the URL table lists. -/
theorem exists_surt_listing (surt : Str) :
    ∃ all : List Stored, all.map (surtKey surt) =
        state.db.descending (urlSurtAndTimeIDRange1 surt) ∧
      (∀ stored, stored ∈ all ↔
        stored ∈ state.log ∧ urlNormalizeSurt stored.1.url uriMax = .ok surt) ∧
      all.Pairwise Stored.Later := by
  have indexed (held : Key) : held ∈ state.db.descending (urlSurtAndTimeIDRange1 surt) ↔
      ∃ stored : Stored, (stored ∈ state.log ∧ urlNormalizeSurt stored.1.url uriMax = .ok surt) ∧
        surtKey surt stored = held := by
    rw [Store.mem_descending]
    constructor
    · rintro ⟨inTable, inRange⟩
      obtain ⟨time, id, rfl⟩ := urlSurtAndTimeIDRange1_iff.mp inRange
      obtain ⟨stored, member, ⟨rfl, rfl⟩, normalized⟩ := recorded.urlKey_iff.mp inTable
      exact ⟨stored, ⟨member, normalized⟩, rfl⟩
    · rintro ⟨stored, ⟨member, normalized⟩, rfl⟩
      exact ⟨recorded.urlKey_iff.mpr ⟨stored, member, ⟨rfl, rfl⟩, normalized⟩,
        urlSurtAndTimeIDRange1_iff.mpr ⟨_, _, rfl⟩⟩
  obtain ⟨all, keys, members, sorted⟩ := recorded.walk_eq_map Store.pairwise_descending
    indexed (by
    intro first second same
    simpa [surtKey, Stored.position_eq_iff] using same)
  exact ⟨all, keys, members, sorted.imp surtKey_lt_iff.mp⟩

end History

/-- **A history is exact.** For a URL that has a SURT, `hx_get_history` fills its slots
with the latest of the stored responses whose URL has that SURT, in descending order of
time and id, each as it was stored. -/
theorem history_exact {state : Recording} (reached : recording.Reaches Machine.anyStep state)
    {url surt : Str} (accepted : urlNormalizeSurt url uriMax = .ok surt) {out : List Response}
    (room : 0 < out.length) :
    ∃ filled listed, hxGetHistory url out state.db = (.ok filled, state.db) ∧
      List.Forall₂ Holds filled listed ∧
      FirstOf out.length (fun stored => stored ∈ state.log ∧
        urlNormalizeSurt stored.1.url uriMax = urlNormalizeSurt url uriMax) Stored.Later listed := by
  have recorded := recorded_of_reaches reached
  obtain ⟨all, keys, members, sorted⟩ := exists_surt_listing recorded surt
  obtain ⟨filled, done, holds⟩ := historyLoop_of_recorded recorded surt
    (fun stored inAll => ((members stored).mp inAll).1) out
  refine ⟨resMergeCommonContent filled, all.take out.length, ?_, ?_, ?_⟩
  · rw [hxGetHistory, Txn.assert_bind room, accepted, Txn.bind_of_ok (Txn.call_apply _ _),
      Txn.keysr_bind, ← keys, Txn.bind_of_ok done, Txn.pure_apply]
  · exact forall₂_mergeCommonContent (fun _ _ _ _ held => ⟨held.time, held.id, held.url,
      held.status, held.type, held.length, held.digests⟩) holds
  · have first := firstOf_take_filter sorted (fun _ => true) out.length
    rw [List.filter_true] at first
    exact first.congr fun stored => by rw [members, accepted, and_iff_left rfl]

/-- The sample is stored twice under different ids, and read into one slot. -/
theorem history_exact_sample : ∃ state filled listed,
    recording.Reaches Machine.anyStep state ∧ state.log = [(.sample, 4), (.sample, 3)] ∧
    hxGetHistory Response.sample.url [.blank] state.db = (.ok filled, state.db) ∧
    List.Forall₂ Holds filled listed ∧ listed.length ≤ 1 := by
  have computed : ((recording.run Machine.anyStep recording.start
      [(.sample, 3), (.sample, 4), (.sample, 4)]).map fun state =>
        decide (state.log = [(.sample, 4), (.sample, 3)])) = some true := by decide +kernel
  have accepted : urlNormalizeSurt Response.sample.url uriMax = .ok "http://(b,a,)/".toList := by
    decide +kernel
  obtain ⟨state, reached, logged⟩ := Machine.reaches_of_run computed
  obtain ⟨filled, listed, done, holds, first⟩ :=
    history_exact reached accepted (show 0 < [Response.blank].length by decide)
  exact ⟨state, filled, listed, reached, of_decide_eq_true logged, done, holds, first.few⟩

end HashArchive.Db
