import HashArchive.Db.Sources

/-!
# The sources page

`page_sources` shows one response for each URL that `hx_get_sources` answers: the one
that no other response of the URL points to. It calls the response active when it is
marked as the latest of its URL, and otherwise gives its time as the time the hash was
last seen there.

The response that is shown is the first one in the order of the table, which is an order
of digests before it is an order of times. When the query is shorter than eight bytes, a
URL may have responses with different digests that match, and the first one need not be
the latest. `showsLatest_iff_inTimeOrder` says exactly when the page is right;
`inTimeOrder_of_full` that it always is for a query of eight bytes or more.
-/

set_option autoImplicit false

namespace HashArchive.Pages

open Hash Url Db

/-! ## The page -/

/-- `CONFIG_SOURCES_MAX`. -/
def configSourcesMax : ℕ := 30

/-- `"Active as of "`, the label of a date. -/
def activeLabel : Str := "Active as of ".toList

/-- `"Obsolete; last seen "`, the label of a date. -/
def obsoleteLabel : Str := "Obsolete; last seen ".toList

/-- What `source_var` gives for an entry: the label and the time of its date, its URL, and
its class. -/
structure SourceEntry where
  date : Str × ℕ
  url : Str
  obsolete : Str
deriving DecidableEq

/-- `source_var`. -/
def sourceVar (res : Response) : SourceEntry where
  date := (if res.flags &&& hxResLatest ≠ 0 then activeLabel else obsoleteLabel, res.time)
  url := res.url
  obsolete := if res.flags &&& hxResLatest ≠ 0 then [] else "obsolete".toList

/-- The responses that `page_sources` does not skip as duplicates. -/
def shown (responses : List Response) : List Response :=
  responses.filter fun res => res.prev = none

/-- The entries of `page_sources`. -/
def pageSources (obj : HashUri) : DbTxn (List SourceEntry) := do
  let responses ← hxGetSources obj (List.replicate configSourcesMax Response.blank)
  pure ((shown responses).map sourceVar)

/-! ## What a reader takes from it -/

/-- The time and the id of a response, in order. -/
def position (res : Response) : ℕ ×ₗ ℕ := toLex (res.time, res.id)

/-- **Each URL is shown by its most recent response**: one response is shown for each URL,
it has the greatest time and id, a URL of which a response is marked is shown as active,
and the time it was last seen is that of its last response. -/
structure ShowsLatest (responses : List Response) : Prop where
  present : ∀ res ∈ responses, ∃ entry ∈ shown responses, entry.url = res.url
  once : (shown responses).Pairwise fun first second => first.url ≠ second.url
  latest : ∀ entry ∈ shown responses, ∀ res ∈ responses, res.url = entry.url →
    position res ≤ position entry
  active : ∀ entry ∈ shown responses, ∀ res ∈ responses, res.url = entry.url →
    res.flags &&& hxResLatest ≠ 0 → (sourceVar entry).date.1 = activeLabel
  lastSeen : ∀ entry ∈ shown responses, (sourceVar entry).date.1 = obsoleteLabel →
    ∀ res ∈ responses, res.url = entry.url → res.time ≤ (sourceVar entry).date.2

/-- A stored response that has a digest beginning with the query. -/
def Matching (log : List Stored) (algo : HashAlgo) (hash : List UInt8) (stored : Stored) : Prop :=
  stored ∈ log ∧ HasDigest algo hash stored

/-- **The first digest of a URL is its latest.** When the first of the matching responses of
a URL in the order of the table has a greater digest than another one, within the limit of
the query, it was not stored earlier. -/
def InTimeOrder (log : List Stored) (algo : HashAlgo) (hash : List UInt8) (max : ℕ) : Prop :=
  ∀ first later, Matching log algo hash first → Matching log algo hash later →
    first.1.url = later.1.url →
    (∀ other, Matching log algo hash other → other.1.url = first.1.url →
      ¬ Ahead algo other first) →
    Among max (Matching log algo hash) (Ahead algo) later →
    indexed algo later < indexed algo first → later.position ≤ first.position

section Shown

variable {state : Recording} {responses : List Response} {listed : List Stored}
  {algo : HashAlgo} {hash : List UInt8} {max : ℕ}
  (slots : List.Forall₂ (Lists state.log) responses listed)
  (heads : ∀ {i res}, responses[i]? = some res →
    (res.prev = none ↔ ∀ k < i, urlAt responses k ≠ some res.url))
  (first : FirstOf max (Matching state.log algo hash) (Ahead algo) listed)

include slots in
theorem exists_stored {i : ℕ} {res : Response} (held : responses[i]? = some res) :
    ∃ stored, listed[i]? = some stored ∧ Lists state.log res stored := by
  obtain ⟨within, rfl⟩ := List.getElem?_eq_some_iff.mp held
  obtain ⟨sameLength, lists⟩ := List.forall₂_iff_get.mp slots
  exact ⟨listed[i], List.getElem?_eq_getElem _, lists i within (sameLength ▸ within)⟩

include slots in
theorem exists_slot {i : ℕ} {stored : Stored} (held : listed[i]? = some stored) :
    ∃ res, responses[i]? = some res ∧ Lists state.log res stored := by
  obtain ⟨within, rfl⟩ := List.getElem?_eq_some_iff.mp held
  obtain ⟨sameLength, lists⟩ := List.forall₂_iff_get.mp slots
  exact ⟨responses[i], List.getElem?_eq_getElem _, lists i (sameLength ▸ within) within⟩

theorem position_eq {res : Response} {stored : Stored} (lists : Lists state.log res stored) :
    position res = stored.position := by
  rw [position, Stored.position, lists.time, lists.id]

include first in
/-- A response listed before another is ahead of it. -/
theorem ahead_of_lt {i j : ℕ} {earlier later : Stored} (before : i < j)
    (atI : listed[i]? = some earlier) (atJ : listed[j]? = some later) :
    Ahead algo earlier later := by
  obtain ⟨inI, rfl⟩ := List.getElem?_eq_some_iff.mp atI
  obtain ⟨inJ, rfl⟩ := List.getElem?_eq_some_iff.mp atJ
  exact List.pairwise_iff_getElem.mp first.ordered i j inI inJ before

include slots heads first in
/-- **The response that is shown** is the first of its URL in the order of the table. -/
theorem shown_iff {i : ℕ} {res : Response} {stored : Stored} (held : responses[i]? = some res)
    (atI : listed[i]? = some stored) :
    res.prev = none ↔ ∀ other, Matching state.log algo hash other →
      other.1.url = stored.1.url → ¬ Ahead algo other stored := by
  obtain ⟨_, same, lists⟩ := exists_stored slots held
  cases atI.symm.trans same
  rw [heads held]
  constructor
  · intro noneBefore other matching sameUrl ahead
    have isListed : other ∈ listed := by
      by_contra leftOut
      have behind := (first.rest other matching leftOut).2 stored (List.mem_of_getElem? atI)
      exact Ahead.asymm _ _ ahead behind
    obtain ⟨k, atK⟩ := List.getElem?_of_mem isListed
    obtain ⟨slot, heldK, listsK⟩ := exists_slot slots atK
    rcases Nat.lt_trichotomy k i with before | rfl | after
    · apply noneBefore k before
      rw [urlAt, heldK, Option.map_some, listsK.url, sameUrl, ← lists.url]
    · cases atK.symm.trans atI
      exact Ahead.asymm _ _ ahead ahead
    · exact Ahead.asymm _ _ ahead (ahead_of_lt first after atI atK)
  · intro noneAhead k before sameUrl
    obtain ⟨slot, heldK, url⟩ := Option.map_eq_some_iff.mp sameUrl
    obtain ⟨other, atK, listsK⟩ := exists_stored slots heldK
    refine noneAhead other (first.sound other (List.mem_of_getElem? atK)) ?_
      (ahead_of_lt first before atK atI)
    rw [← listsK.url, url, lists.url]

include heads in
/-- One response is shown for each URL. -/
theorem exists_shown {res : Response} (member : res ∈ responses) :
    ∃ entry ∈ shown responses, entry.url = res.url := by
  classical
  obtain ⟨i, held⟩ := List.getElem?_of_mem member
  have some : ∃ k, urlAt responses k = some res.url := ⟨i, by rw [urlAt, held, Option.map_some]⟩
  obtain ⟨entry, atK, url⟩ := Option.map_eq_some_iff.mp (Nat.find_spec some)
  refine ⟨entry, List.mem_filter.mpr ⟨List.mem_of_getElem? atK, ?_⟩, url⟩
  rw [decide_eq_true_eq, heads atK, url]
  exact fun k before => Nat.find_min some before

include heads in
theorem shown_pairwise : (shown responses).Pairwise fun first second => first.url ≠ second.url := by
  rw [shown, List.pairwise_filter]
  apply List.pairwise_iff_getElem.mpr
  intro i j inI inJ before _ noPrev same
  rw [decide_eq_true_eq, heads (List.getElem?_eq_getElem inJ)] at noPrev
  exact noPrev i before (by rw [urlAt, List.getElem?_eq_getElem inI, Option.map_some, same])

include slots heads first in
/-- A page that is right shows no digest before a later one. -/
theorem ShowsLatest.inTimeOrder (right : ShowsLatest responses) :
    InTimeOrder state.log algo hash max := by
  intro ahead later aheadMatches laterMatches sameUrl isFirst among larger
  have laterListed : later ∈ listed := (first.mem_iff Ahead.asymm).mpr ⟨laterMatches, among⟩
  have isAhead : Ahead algo ahead later := .inl larger
  have aheadListed : ahead ∈ listed := by
    by_contra leftOut
    exact Ahead.asymm _ _ isAhead ((first.rest ahead aheadMatches leftOut).2 later laterListed)
  obtain ⟨i, atI⟩ := List.getElem?_of_mem aheadListed
  obtain ⟨j, atJ⟩ := List.getElem?_of_mem laterListed
  obtain ⟨entry, heldI, listsI⟩ := exists_slot slots atI
  obtain ⟨res, heldJ, listsJ⟩ := exists_slot slots atJ
  have isShown : entry ∈ shown responses := by
    refine List.mem_filter.mpr ⟨List.mem_of_getElem? heldI, ?_⟩
    rw [decide_eq_true_eq, shown_iff slots heads first heldI atI]
    exact isFirst
  have atMost := right.latest entry isShown res (List.mem_of_getElem? heldJ)
    (by rw [listsJ.url, listsI.url, sameUrl])
  rwa [position_eq listsI, position_eq listsJ] at atMost

include slots heads first in
/-- **In time order, the first response of a URL is its latest.** -/
theorem InTimeOrder.latest (ordered : InTimeOrder state.log algo hash max) {entry res : Response}
    (isShown : entry ∈ shown responses) (member : res ∈ responses) (sameUrl : res.url = entry.url) :
    ∃ top stored, Lists state.log entry top ∧ Lists state.log res stored ∧
      stored.1.url = top.1.url ∧ stored.position ≤ top.position := by
  obtain ⟨entryMember, noPrev⟩ := List.mem_filter.mp isShown
  obtain ⟨i, heldI⟩ := List.getElem?_of_mem entryMember
  obtain ⟨j, heldJ⟩ := List.getElem?_of_mem member
  obtain ⟨top, atI, listsI⟩ := exists_stored slots heldI
  obtain ⟨stored, atJ, listsJ⟩ := exists_stored slots heldJ
  rw [decide_eq_true_eq, shown_iff slots heads first heldI atI] at noPrev
  have same : stored.1.url = top.1.url := by rw [← listsJ.url, sameUrl, listsI.url]
  refine ⟨top, stored, listsI, listsJ, same, ?_⟩
  have storedListed := List.mem_of_getElem? atJ
  have matching := first.sound stored storedListed
  rcases Nat.lt_trichotomy i j with before | rfl | after
  · rcases ahead_of_lt first before atI atJ with larger | ⟨-, later⟩
    · exact ordered top stored (first.sound top (List.mem_of_getElem? atI)) matching same.symm
        noPrev ((first.mem_iff Ahead.asymm).mp storedListed).2 larger
    · exact le_of_lt later
  · cases atI.symm.trans atJ
    exact le_refl _
  · exact absurd (ahead_of_lt first after atJ atI) (noPrev stored matching same)

include slots heads first in
/-- **When the page is right.** -/
theorem showsLatest_iff :
    ShowsLatest responses ↔ InTimeOrder state.log algo hash max := by
  refine ⟨fun right => right.inTimeOrder slots heads first, fun ordered => ?_⟩
  have isLatest {entry res : Response} (isShown : entry ∈ shown responses)
      (member : res ∈ responses) (sameUrl : res.url = entry.url) :=
    ordered.latest slots heads first isShown member sameUrl
  constructor
  case present => exact fun res member => exists_shown heads member
  case once => exact shown_pairwise heads
  case latest =>
    intro entry isShown res member sameUrl
    obtain ⟨top, stored, listsTop, lists, -, atMost⟩ := isLatest isShown member sameUrl
    rwa [position_eq listsTop, position_eq lists]
  case active =>
    intro entry isShown res member sameUrl marked
    obtain ⟨top, stored, listsTop, lists, same, atMost⟩ := isLatest isShown member sameUrl
    have topLatest : IsLatest state.log top := by
      intro other inLog sameSurt
      rw [← same] at sameSurt
      exact (lists.marked.mp marked other inLog sameSurt).trans atMost
    exact if_pos (listsTop.marked.mpr topLatest)
  case lastSeen =>
    intro entry isShown _ res member sameUrl
    obtain ⟨top, stored, listsTop, lists, -, atMost⟩ := isLatest isShown member sameUrl
    rw [lists.time, show (sourceVar entry).date.2 = top.1.time from listsTop.time]
    exact (Prod.Lex.toLex_le_toLex.mp atMost).elim le_of_lt fun both => both.1.le

end Shown

/-! ## When the page is right -/

/-- For a query that fills the eight bytes of the table, all responses that match have the
same digest there. -/
theorem inTimeOrder_of_full {log : List Stored} {algo : HashAlgo} {hash : List UInt8} {max : ℕ}
    (full : hxHashIndexLen ≤ hash.length) : InTimeOrder log algo hash max := by
  intro first later firstMatches laterMatches _ _ _ larger
  have bytes (stored : Stored) (matching : Matching log algo hash stored) :
      indexed algo stored = hash.take hxHashIndexLen := by
    have begins := matching.2.2
    rw [indexed, List.prefix_iff_eq_take.mp begins, List.take_take, min_eq_left full]
  rw [bytes first firstMatches, bytes later laterMatches] at larger
  exact absurd larger (List.lt_irrefl _)

/-- The page of a query, and when it is right. -/
theorem exists_page {state : Recording} (recorded : Recorded state) {obj : HashUri}
    {algo : HashAlgo} (known : obj.algo = some algo) :
    ∃ responses, hxGetSources obj (List.replicate configSourcesMax Response.blank) state.db =
        (.ok responses, state.db) ∧
      (ShowsLatest responses ↔ InTimeOrder state.log algo obj.buf configSourcesMax) := by
  obtain ⟨filled, listed, done, slots, unlinked, first⟩ := sourcesLoop_firstOf recorded algo
    obj.buf (List.replicate configSourcesMax Response.blank)
  have notLinked : Unlinked filled := unlinked fun res member => by
    rw [List.eq_of_mem_replicate member]
    exact ⟨rfl, rfl⟩
  rw [List.length_replicate] at first
  refine ⟨resMergeCommonUrls filled, hxGetSources_of_done known (by decide) done, ?_⟩
  exact showsLatest_iff (lists_mergeCommonUrls slots)
    (fun {_ _} held => prev_eq_none_iff notLinked held) first

/-- **The sources page shows each URL by its most recent response** exactly when the first
of the responses of a URL in the order of the table is its latest. -/
theorem showsLatest_iff_inTimeOrder {state : Recording}
    (reached : recording.Reaches Machine.anyStep state) {obj : HashUri} {algo : HashAlgo}
    (known : obj.algo = some algo) :
    ∃ responses, hxGetSources obj (List.replicate configSourcesMax Response.blank) state.db =
        (.ok responses, state.db) ∧
      pageSources obj state.db = (.ok ((shown responses).map sourceVar), state.db) ∧
      (ShowsLatest responses ↔ InTimeOrder state.log algo obj.buf configSourcesMax) := by
  obtain ⟨responses, read, right⟩ := exists_page (recorded_of_reaches reached) known
  refine ⟨responses, read, ?_, right⟩
  rw [pageSources, Txn.bind_of_ok read, Txn.pure_apply]

/-- The sample is stored under two ids; a query of eight bytes shows it as it should. -/
theorem showsLatest_iff_inTimeOrder_full : ∃ state responses,
    recording.Reaches Machine.anyStep state ∧ state.log = [(.sample, 4), (.sample, 3)] ∧
    hxGetSources ⟨.linkHashUri, some .md5, List.replicate 8 1⟩
      (List.replicate configSourcesMax Response.blank) state.db = (.ok responses, state.db) ∧
    ShowsLatest responses := by
  have computed : ((recording.run Machine.anyStep recording.start
      [(.sample, 3), (.sample, 4)]).map fun state =>
        decide (state.log = [(.sample, 4), (.sample, 3)])) = some true := by decide +kernel
  obtain ⟨state, reached, logged⟩ := Machine.reaches_of_run computed
  obtain ⟨responses, read, -, right⟩ := showsLatest_iff_inTimeOrder reached
    (show HashUri.algo ⟨.linkHashUri, some .md5, List.replicate 8 1⟩ = some .md5 from rfl)
  exact ⟨state, responses, reached, of_decide_eq_true logged, read,
    right.mpr (inTimeOrder_of_full (by decide))⟩

/-- The sample at another time, with a digest of which only the first byte is the same. -/
def resampled (time : ℕ) (byte : UInt8) : Response := { Response.sample with
  time := time
  digests := fun algo => if algo = .md5 then 1 :: List.replicate 15 byte else [] }

/-- The earlier of two responses has the greater digest, and is the one that a query for the
byte they share shows. -/
theorem not_inTimeOrder_resampled : ¬ InTimeOrder [(resampled 2 0, 4), (resampled 1 255, 3)] .md5
    [1] configSourcesMax := by
  intro ordered
  have matching : ∀ stored ∈ [(resampled 2 0, 4), (resampled 1 255, 3)],
      Matching [(resampled 2 0, 4), (resampled 1 255, 3)] .md5 [1] stored := by
    intro stored member
    refine ⟨member, ?_⟩
    rcases List.mem_pair.mp member with rfl | rfl <;> exact ⟨by decide, by decide⟩
  have larger : indexed .md5 (resampled 2 0, 4) < indexed .md5 (resampled 1 255, 3) := by decide
  have atMost := ordered (resampled 1 255, 3) (resampled 2 0, 4) (matching _ (by simp))
    (matching _ (by simp)) rfl ?_ ?_ larger
  · rw [← not_lt, Stored.position_lt_iff] at atMost
    exact atMost (.inl (by decide))
  · rintro other ⟨member, -⟩ -
    rcases List.mem_pair.mp member with rfl | rfl
    · exact Ahead.asymm _ _ (.inl larger)
    · exact fun ahead => Ahead.asymm _ _ ahead ahead
  · rintro ⟨ahead, distinct, full, earlier⟩
    have few := (distinct.subperm fun stored member => (earlier stored member).1.1).length_le
    rw [full] at few
    revert few
    decide

/-- The page shows the URL as obsolete, although the later response is among the sources and
is the latest of the URL. -/
theorem active_shown_obsolete : ∃ state responses,
    hashUriParse (fun _ => 0) "hash://md5/01".toList = .ok ⟨.linkHashUri, some .md5, [1]⟩ ∧
    recording.Reaches Machine.anyStep state ∧
    state.log = [(resampled 2 0, 4), (resampled 1 255, 3)] ∧
    hxGetSources ⟨.linkHashUri, some .md5, [1]⟩
      (List.replicate configSourcesMax Response.blank) state.db = (.ok responses, state.db) ∧
    ¬ ShowsLatest responses := by
  have computed : ((recording.run Machine.anyStep recording.start
      [(resampled 1 255, 3), (resampled 2 0, 4)]).map fun state =>
        decide (state.log = [(resampled 2 0, 4), (resampled 1 255, 3)])) = some true := by
    decide +kernel
  obtain ⟨state, reached, logged⟩ := Machine.reaches_of_run computed
  have log := of_decide_eq_true logged
  obtain ⟨responses, read, right⟩ := exists_page (recorded_of_reaches reached)
    (show HashUri.algo ⟨.linkHashUri, some .md5, [1]⟩ = some .md5 from rfl)
  rw [log] at right
  exact ⟨state, responses, by decide +kernel, reached, log, read,
    fun shows => not_inTimeOrder_resampled (right.mp shows)⟩

end HashArchive.Pages
