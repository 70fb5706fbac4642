import HashArchive.Db.Merging
import HashArchive.Db.Recording

/-!
# The sources of a hash

`hx_get_sources` looks up a hash in the table of its algorithm, which keeps eight
bytes of each digest. It walks the keys that begin with the first bytes of the hash,
from the greatest down, drops the responses whose digest does not begin with the
whole hash, and marks those that are the latest of their URL.

`sources_exact` says that nothing is lost on the way: the answer is the first
responses, in the order of the table, that have a digest beginning with the hash. A
response without a digest of the algorithm is in no table, so the empty hash does not
find it either (`undigested_not_found`).
-/

set_option autoImplicit false

namespace HashArchive.Db

open Hash Url

/-! ## The order of a table -/

theorem map_toNat_lt_iff {first second : List UInt8} :
    first.map UInt8.toNat < second.map UInt8.toNat ↔ first < second := by
  induction first generalizing second with
  | nil => cases second <;> simp
  | cons byte first ih =>
      cases second with
      | nil => simp
      | cons other second =>
          rw [List.map_cons, List.map_cons, List.cons_lt_cons_iff, List.cons_lt_cons_iff, ih,
            UInt8.lt_iff_toNat_lt, UInt8.toNat_inj]

/-- The keys of one algorithm are ordered by digest, time and id. -/
theorem Key.algoHashAndTimeID_lt_iff {algo : HashAlgo} {hash otherHash : List UInt8}
    {time id otherTime otherId : ℕ} :
    algoHashAndTimeID algo hash time id < algoHashAndTimeID algo otherHash otherTime otherId ↔
      hash < otherHash ∨ hash = otherHash ∧
        (time < otherTime ∨ time = otherTime ∧ id < otherId) := by
  have sameBytes : hash.map UInt8.toNat = otherHash.map UInt8.toNat ↔ hash = otherHash :=
    (List.map_injective_iff.mpr fun _ _ => UInt8.toNat_inj.mp).eq_iff
  rw [lt_iff_rank_lt]
  simp [rank, fields, Field.rank, List.cons_lt_cons_iff, map_toNat_lt_iff, sameBytes]

/-- The bytes of a digest that its table keeps. -/
def indexed (algo : HashAlgo) (stored : Stored) : List UInt8 :=
  (stored.1.digests algo).take hxHashIndexLen

/-- The key of a stored response in the table of an algorithm. -/
def digestKey (algo : HashAlgo) (stored : Stored) : Key :=
  .algoHashAndTimeID algo (indexed algo stored) stored.1.time stored.2

/-- One response comes before the other in descending order of the first eight bytes of the
digest, the time and the id. -/
def Ahead (algo : HashAlgo) (first second : Stored) : Prop :=
  indexed algo second < indexed algo first ∨
    indexed algo second = indexed algo first ∧ Stored.Later first second

theorem digestKey_lt_iff {algo : HashAlgo} {first second : Stored} :
    digestKey algo first < digestKey algo second ↔ Ahead algo second first := by
  rw [digestKey, digestKey, Key.algoHashAndTimeID_lt_iff, Ahead, Stored.Later, Stored.position_lt_iff]

theorem Ahead.asymm {algo : HashAlgo} (first second : Stored) (ahead : Ahead algo first second) :
    ¬ Ahead algo second first := by
  rw [← digestKey_lt_iff] at ahead ⊢
  exact lt_asymm ahead

/-! ## The latest response of a URL -/

/-- No response was stored later whose URL has the same SURT. -/
def IsLatest (log : List Stored) (stored : Stored) : Prop :=
  ∀ other ∈ log, urlNormalizeSurt other.1.url uriMax = urlNormalizeSurt stored.1.url uriMax →
    other.position ≤ stored.position

theorem timeidcmp_nonneg_iff {first second : Stored} :
    0 ≤ timeidcmp first.1.time first.2 second.1.time second.2 ↔
      second.position ≤ first.position := by
  rw [← not_lt (a := first.position), Stored.position_lt_iff]
  unfold timeidcmp
  grind

theorem timeidcmp_eq_zero_iff {first second : Stored} :
    timeidcmp first.1.time first.2 second.1.time second.2 = 0 ↔
      first.position = second.position := by
  rw [Stored.position_eq_iff]
  unfold timeidcmp
  grind

section Sources

variable {state : Recording} (recorded : Recorded state)
include recorded

/-- **`hx_get_latest` finds the latest response** whose URL has the SURT of a stored one. -/
theorem hxGetLatest_of_recorded {stored : Stored} (member : stored ∈ state.log) :
    ∃ latest ∈ state.log,
      hxGetLatest stored.1.url state.db = (.ok (latest.1.time, latest.2), state.db) ∧
        stored.position ≤ latest.position ∧
          (stored.position = latest.position ↔ IsLatest state.log stored) := by
  obtain ⟨surt, normalized, keys⟩ := recorded.agree.urlKey (recorded.present member).stores
  have isKey : ∀ other ∈ state.log, urlNormalizeSurt other.1.url uriMax = .ok surt →
      Key.urlSurtAndTimeID surt other.1.time other.2 ∈ state.db := fun other inLog same =>
    recorded.urlKey_iff.mpr ⟨other, inLog, ⟨rfl, rfl⟩, same⟩
  cases last : state.db.lastWithin (urlSurtAndTimeIDRange1 surt) with
  | none =>
      exact absurd (urlSurtAndTimeIDRange1_iff.mpr ⟨_, _, rfl⟩)
        (Store.lastWithin_eq_none_iff.mp last _ (isKey stored member normalized))
  | some latestKey =>
      obtain ⟨⟨held, inRange⟩, greatest⟩ := Store.lastWithin_eq_some_iff.mp last
      obtain ⟨time, id, rfl⟩ := urlSurtAndTimeIDRange1_iff.mp inRange
      obtain ⟨latest, inLog, ⟨rfl, rfl⟩, same⟩ := recorded.urlKey_iff.mp held
      have notLater (other : Stored) (otherInLog : other ∈ state.log)
          (sameSurt : urlNormalizeSurt other.1.url uriMax = .ok surt) :
          other.position ≤ latest.position := by
        have atMost := greatest _ (isKey other otherInLog sameSurt)
          (urlSurtAndTimeIDRange1_iff.mpr ⟨_, _, rfl⟩)
        rw [← not_lt, Key.urlSurtAndTimeID_lt_iff] at atMost
        rwa [← not_lt, Stored.position_lt_iff]
      refine ⟨latest, inLog, ?_, notLater stored member normalized, ?_, ?_⟩
      · rw [hxGetLatest, normalized, Txn.bind_of_ok (Txn.call_apply _ _), Txn.lastr_bind, last]
        rfl
      · intro equal other otherInLog sameSurt
        exact equal ▸ notLater other otherInLog (sameSurt.trans normalized)
      · intro isLatest
        exact le_antisymm (notLater stored member normalized)
          (isLatest latest inLog (same.trans normalized.symm))

/-- **The mark**: a slot is marked when no later response has its SURT, and the assertion
on the latest time and id holds. -/
theorem markLatest_of_recorded {stored : Stored} (member : stored ∈ state.log) {res : Response}
    (holds : Holds res stored) (unmarked : res.flags = 0) :
    ∃ flags, markLatest res state.db = (.ok { res with flags := flags }, state.db) ∧
      (flags &&& hxResLatest ≠ 0 ↔ IsLatest state.log stored) := by
  obtain ⟨latest, inLog, found, notLater, isLatest⟩ := hxGetLatest_of_recorded recorded member
  have nonneg := timeidcmp_nonneg_iff.mpr notLater
  rw [← holds.url] at found
  rw [← holds.time, ← holds.id] at nonneg
  simp only [markLatest, Txn.bind_of_ok found, Txn.assert_bind nonneg, Txn.pure_apply]
  by_cases zero : timeidcmp latest.1.time latest.2 res.time res.id = 0
  · rw [if_pos zero]
    refine ⟨res.flags ||| hxResLatest, rfl, iff_of_true ?_ ?_⟩
    · rw [unmarked]
      decide
    · rw [holds.time, holds.id] at zero
      exact isLatest.mp (timeidcmp_eq_zero_iff.mp zero).symm
  · rw [if_neg zero]
    refine ⟨res.flags, rfl, iff_of_false ?_ ?_⟩
    · rw [unmarked]
      decide
    · intro claimed
      rw [holds.time, holds.id] at zero
      exact zero (timeidcmp_eq_zero_iff.mpr (isLatest.mpr claimed).symm)

end Sources

/-! ## The walk -/

/-- What a slot of the answer says of a stored response. -/
structure Lists (log : List Stored) (slot : Response) (stored : Stored) : Prop extends
    Holds slot stored where
  marked : slot.flags &&& hxResLatest ≠ 0 ↔ IsLatest log stored

/-- A stored response has a digest of an algorithm, and the digest begins with a hash. -/
def HasDigest (algo : HashAlgo) (hash : List UInt8) (stored : Stored) : Prop :=
  stored.1.digests algo ≠ [] ∧ hash <+: stored.1.digests algo

theorem digestMatches_iff {algo : HashAlgo} {buf : List UInt8} {res : Response} :
    digestMatches algo buf res = true ↔ buf <+: res.digests algo := by
  rw [digestMatches, Bool.and_eq_true, decide_eq_true_eq, beq_iff_eq]
  constructor
  · rintro ⟨-, same⟩
    exact List.prefix_iff_eq_take.mpr same.symm
  · intro begins
    exact ⟨begins.length_le, (List.prefix_iff_eq_take.mp begins).symm⟩

section Walk

variable {state : Recording} (recorded : Recorded state)
include recorded

/-- **The loop keeps the responses that match**, as many as there are slots. -/
theorem sourcesLoop_of_recorded (algo : HashAlgo) (buf : List UInt8) {all : List Stored}
    (sound : ∀ stored ∈ all, stored ∈ state.log) (slots : List Response) :
    ∃ filled, sourcesLoop algo buf slots (all.map (digestKey algo)) state.db =
        (.ok filled, state.db) ∧
      List.Forall₂ (Lists state.log) filled
        ((all.filter fun stored => digestMatches algo buf stored.1).take slots.length) ∧
      (Unlinked slots → Unlinked filled) := by
  induction all generalizing slots with
  | nil => cases slots <;> exact ⟨[], rfl, .nil, fun _ _ member => nomatch member⟩
  | cons stored all ih =>
      cases slots with
      | nil => exact ⟨[], rfl, .nil, id⟩
      | cons slot slots =>
          obtain ⟨member, later⟩ := List.forall_mem_cons.mp sound
          obtain ⟨res, got, holds, flags, next, prev⟩ :=
            getResponse_of_recorded recorded member { slot with flags := 0 }
          have unpacked : Txn.call (algoHashAndTimeIDKeyUnpack (digestKey algo stored)) state.db =
              (.ok (algo, indexed algo stored, stored.1.time, stored.2), state.db) := rfl
          have sameMatch : digestMatches algo buf res = digestMatches algo buf stored.1 := by
            rw [digestMatches, digestMatches, holds.digests]
          simp only [List.map_cons, sourcesLoop, Txn.bind_of_ok unpacked, Txn.bind_of_ok got]
          by_cases matching : digestMatches algo buf stored.1 = true
          · obtain ⟨flags, mark, marked⟩ := markLatest_of_recorded recorded member holds flags
            obtain ⟨rest, done, listed, unlinked⟩ := ih later slots
            refine ⟨{ res with flags := flags } :: rest, ?_, ?_, ?_⟩
            · rw [if_pos (sameMatch.trans matching), Txn.bind_of_ok mark, Txn.bind_of_ok done,
                Txn.pure_apply]
            · rw [List.filter_cons, if_pos matching]
              exact .cons ⟨⟨holds.time, holds.id, holds.url, holds.status, holds.type,
                holds.length, holds.digests⟩, marked⟩ listed
            · intro noLinks
              obtain ⟨here, others⟩ := List.forall_mem_cons.mp noLinks
              exact List.forall_mem_cons.mpr ⟨⟨next.trans here.1, prev.trans here.2⟩,
                unlinked others⟩
          · obtain ⟨rest, done, listed, unlinked⟩ := ih later (res :: slots)
            refine ⟨rest, ?_, ?_, ?_⟩
            · rw [if_neg (sameMatch ▸ matching), done]
            · rw [List.filter_cons, if_neg matching]
              exact listed
            · intro noLinks
              obtain ⟨here, others⟩ := List.forall_mem_cons.mp noLinks
              exact unlinked (List.forall_mem_cons.mpr ⟨⟨next.trans here.1, prev.trans here.2⟩,
                others⟩)

/-- The responses of a range of a table, in its order. -/
theorem exists_hash_listing (algo : HashAlgo) (hash : List UInt8) :
    ∃ all : List Stored, all.map (digestKey algo) =
        state.db.descending (algoHashAndTimeIDRange2 algo hash) ∧
      (∀ stored, stored ∈ all ↔ stored ∈ state.log ∧ stored.1.digests algo ≠ [] ∧
        hash.take (min hxHashIndexLen hash.length) <+: indexed algo stored) ∧
      all.Pairwise (Ahead algo) := by
  have inIndex (held : Key) : held ∈ state.db.descending (algoHashAndTimeIDRange2 algo hash) ↔
      ∃ stored : Stored, (stored ∈ state.log ∧ stored.1.digests algo ≠ [] ∧
        hash.take (min hxHashIndexLen hash.length) <+: indexed algo stored) ∧
          digestKey algo stored = held := by
    rw [Store.mem_descending]
    constructor
    · rintro ⟨inTable, inRange⟩
      obtain ⟨bytes, time, id, rfl, begins⟩ := algoHashAndTimeIDRange2_iff.mp inRange
      obtain ⟨stored, member, ⟨rfl, rfl⟩, digest, rfl⟩ := recorded.hashKey_iff.mp inTable
      exact ⟨stored, ⟨member, digest, begins⟩, rfl⟩
    · rintro ⟨stored, ⟨member, digest, begins⟩, rfl⟩
      exact ⟨recorded.hashKey_iff.mpr ⟨stored, member, ⟨rfl, rfl⟩, digest, rfl⟩,
        algoHashAndTimeIDRange2_iff.mpr ⟨_, _, _, rfl, begins⟩⟩
  obtain ⟨all, keys, members, sorted⟩ := recorded.walk_eq_map Store.pairwise_descending
    inIndex (by
    intro first second same
    simp only [digestKey, Key.algoHashAndTimeID.injEq] at same
    exact Stored.position_eq_iff.mpr same.2.2)
  exact ⟨all, keys, members, sorted.imp digestKey_lt_iff.mp⟩

/-- **What the walk finds**, before the responses of one URL are linked. -/
theorem sourcesLoop_firstOf (algo : HashAlgo) (hash : List UInt8) (out : List Response) :
    ∃ filled listed, sourcesLoop algo hash out
        (state.db.descending (algoHashAndTimeIDRange2 algo hash)) state.db =
          (.ok filled, state.db) ∧
      List.Forall₂ (Lists state.log) filled listed ∧ (Unlinked out → Unlinked filled) ∧
      FirstOf out.length (fun stored => stored ∈ state.log ∧ HasDigest algo hash stored)
        (Ahead algo) listed := by
  obtain ⟨all, keys, members, sorted⟩ := exists_hash_listing recorded algo hash
  obtain ⟨filled, done, listed, unlinked⟩ := sourcesLoop_of_recorded recorded algo hash
    (fun stored inAll => ((members stored).mp inAll).1) out
  refine ⟨filled, _, keys ▸ done, listed, unlinked,
    (firstOf_take_filter sorted _ out.length).congr fun stored => ?_⟩
  rw [members, digestMatches_iff, and_assoc, and_assoc, HasDigest]
  refine and_congr_right fun _ => and_congr_right fun _ => and_iff_right_of_imp fun begins => ?_
  rw [← List.take_eq_take_min]
  exact begins.take hxHashIndexLen

end Walk

/-- What the walk finds is linked by URL. -/
theorem hxGetSources_of_done {db : Database} {obj : HashUri} {algo : HashAlgo}
    (known : obj.algo = some algo) {out filled : List Response} (room : 0 < out.length)
    (done : sourcesLoop algo obj.buf out (db.descending (algoHashAndTimeIDRange2 algo obj.buf)) db =
      (.ok filled, db)) :
    hxGetSources obj out db = (.ok (resMergeCommonUrls filled), db) := by
  rw [hxGetSources, Txn.assert_bind room, known]
  show (Txn.kvsKeysr (algoHashAndTimeIDRange2 algo obj.buf) >>= fun keys => _) db = _
  rw [Txn.keysr_bind, Txn.bind_of_ok done, Txn.pure_apply]

/-- Links do not change what the slots say. -/
theorem lists_mergeCommonUrls {log listed : List Stored} {filled : List Response}
    (slots : List.Forall₂ (Lists log) filled listed) :
    List.Forall₂ (Lists log) (resMergeCommonUrls filled) listed :=
  forall₂_mergeCommonUrls (fun _ _ _ _ lists => ⟨⟨lists.time, lists.id, lists.url, lists.status,
    lists.type, lists.length, lists.digests⟩, lists.marked⟩) slots

/-- **Reverse lookup is exact.** For a known algorithm, `hx_get_sources` fills its slots
with the first of the stored responses that have a digest beginning with the hash, in
descending order of the first eight bytes of the digest, the time and the id, each once;
those are marked that are the latest response of their SURT. -/
theorem sources_exact {state : Recording} (reached : recording.Reaches Machine.anyStep state)
    {obj : HashUri} {algo : HashAlgo} (known : obj.algo = some algo) {out : List Response}
    (room : 0 < out.length) :
    ∃ filled listed, hxGetSources obj out state.db = (.ok filled, state.db) ∧
      List.Forall₂ (Lists state.log) filled listed ∧ listed.Nodup ∧
      FirstOf out.length (fun stored => stored ∈ state.log ∧ HasDigest algo obj.buf stored)
        (Ahead algo) listed := by
  obtain ⟨filled, listed, done, slots, -, first⟩ :=
    sourcesLoop_firstOf (recorded_of_reaches reached) algo obj.buf out
  exact ⟨resMergeCommonUrls filled, listed, hxGetSources_of_done known room done,
    lists_mergeCommonUrls slots, first.nodup Ahead.asymm, first⟩

/-- The sample is stored under two ids, and looked up by one byte of its digest. -/
theorem sources_exact_sample : ∃ state filled listed,
    recording.Reaches Machine.anyStep state ∧ state.log = [(.sample, 4), (.sample, 3)] ∧
    hxGetSources ⟨.linkHashUri, some .md5, [1]⟩ [.blank] state.db = (.ok filled, state.db) ∧
    List.Forall₂ (Lists state.log) filled listed ∧ listed.Nodup ∧ listed.length ≤ 1 := by
  obtain ⟨state, reached, logged⟩ := exists_recording_samples
  obtain ⟨filled, listed, done, slots, once, first⟩ :=
    sources_exact reached (show HashUri.algo ⟨.linkHashUri, some .md5, [1]⟩ = some .md5 from rfl)
      (show 0 < [Response.blank].length by decide)
  exact ⟨state, filled, listed, reached, logged, done, slots, once, first.few⟩

/-- The sample has no SHA-1 digest: the slot for it is empty, and the empty hash, with which
it begins, does not find the sample. -/
theorem undigested_not_found : ∃ state, recording.Reaches Machine.anyStep state ∧
    (Response.sample, 3) ∈ state.log ∧ [] <+: Response.sample.digests .sha1 ∧
    hxGetSources ⟨.linkHashUri, some .sha1, []⟩ [.blank] state.db = (.ok [], state.db) := by
  have computed : ((recording.run Machine.anyStep recording.start [(.sample, 3)]).map fun state =>
      decide ((Response.sample, 3) ∈ state.log ∧
        (hxGetSources ⟨.linkHashUri, some .sha1, []⟩ [.blank] state.db).1.toOption = some [])) =
          some true := by decide +kernel
  obtain ⟨state, reached, both⟩ := Machine.reaches_of_run computed
  obtain ⟨member, found⟩ := of_decide_eq_true both
  obtain ⟨filled, done⟩ := hxGetSources_of_agree (recorded_of_reaches reached).agree
    ⟨.linkHashUri, some .sha1, []⟩ (show 0 < [Response.blank].length by decide)
  rw [done] at found
  cases found
  exact ⟨state, reached, member, List.nil_prefix, done⟩

end HashArchive.Db
