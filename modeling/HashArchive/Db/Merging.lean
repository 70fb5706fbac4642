import HashArchive.Db.Lookup
import Mathlib.Logic.Relation

/-!
# Chains of responses

`res_merge_common_content` and `res_merge_common_urls` link responses of one array:
`next` and `prev` are positions in it, and a page shows the responses that no other
points to, each with those that its chain leads to.

`Linked` says which pairs are linked. In a history a response is linked to its
neighbour when `res_content_eq` finds nothing against it (`linked_of_mergeCommonContent`);
among the sources of a hash it is linked to the next one of the same URL
(`linked_of_mergeCommonUrls`).

`res_content_eq` does not relate the first and the last response of a chain: a
response in between that lacks a digest agrees with both. `noConflict_iff_gapsAgree`
says exactly when a history is merged without putting different content into one
chain.
-/

set_option autoImplicit false

namespace HashArchive.Db

open Hash

/-! ## Links -/

/-- **Which responses are linked**: `next` and `prev` of every slot are those of a relation
on positions, and nothing else has changed. -/
structure Linked (responses merged : List Response) (joined : ℕ → ℕ → Prop) : Prop where
  length : merged.length = responses.length
  slot : ∀ {i res}, responses[i]? = some res → ∃ next prev,
    merged[i]? = some { res with next := next, prev := prev } ∧
      (∀ j, next = some j ↔ joined i j) ∧ ∀ j, prev = some j ↔ joined j i

/-- No response is linked yet. -/
def Unlinked (responses : List Response) : Prop :=
  ∀ res ∈ responses, res.next = none ∧ res.prev = none

theorem getElem?_linkResponses (responses : List Response) (before after i : ℕ) :
    (linkResponses responses before after)[i]? = responses[i]?.map fun res => { res with
      next := if before = i then some after else res.next
      prev := if after = i then some before else res.prev } := by
  rw [linkResponses, List.getElem?_modify, List.getElem?_modify]
  cases responses[i]? with
  | none => rfl
  | some res =>
      by_cases first : before = i <;> by_cases second : after = i <;> simp [first, second]

theorem length_linkResponses (responses : List Response) (before after : ℕ) :
    (linkResponses responses before after).length = responses.length := by
  rw [linkResponses, List.length_modify, List.length_modify]

theorem Unlinked.linked {responses : List Response} (unlinked : Unlinked responses) :
    Linked responses responses fun _ _ => False where
  length := rfl
  slot {i res} held := by
    obtain ⟨noNext, noPrev⟩ := unlinked res (List.mem_of_getElem? held)
    exact ⟨res.next, res.prev, held, by simp [noNext], by simp [noPrev]⟩

theorem Linked.congr {responses merged : List Response} {joined other : ℕ → ℕ → Prop}
    (linked : Linked responses merged joined) (same : ∀ i j, joined i j ↔ other i j) :
    Linked responses merged other where
  length := linked.length
  slot held := by
    obtain ⟨next, prev, slot, isNext, isPrev⟩ := linked.slot held
    exact ⟨next, prev, slot, fun j => (isNext j).trans (same _ _),
      fun j => (isPrev j).trans (same _ _)⟩

/-- **One more link**, between two responses that have none on that side. -/
theorem Linked.link {responses merged : List Response} {joined : ℕ → ℕ → Prop}
    (linked : Linked responses merged joined) {before after : ℕ}
    (noNext : ∀ j, ¬ joined before j) (noPrev : ∀ i, ¬ joined i after) :
    Linked responses (linkResponses merged before after)
      fun i j => joined i j ∨ (i = before ∧ j = after) where
  length := by rw [length_linkResponses, linked.length]
  slot {i res} held := by
    obtain ⟨next, prev, slot, isNext, isPrev⟩ := linked.slot held
    refine ⟨if before = i then some after else next, if after = i then some before else prev,
      ?_, ?_, ?_⟩
    · rw [getElem?_linkResponses, slot]
      rfl
    · intro j
      by_cases first : before = i
      · subst first
        simp [noNext, eq_comm]
      · simp [first, Ne.symm first, isNext]
    · intro j
      by_cases second : after = i
      · subst second
        simp [noPrev, eq_comm]
      · simp [second, Ne.symm second, isPrev]

/-- What a slot reads is what the response reads, but for the links. -/
theorem Linked.getElem?_eq {responses merged : List Response} {joined : ℕ → ℕ → Prop}
    (linked : Linked responses merged joined) (i : ℕ) :
    ∃ next prev, merged[i]? = responses[i]?.map fun res => { res with next := next, prev := prev } := by
  cases held : responses[i]? with
  | none =>
      refine ⟨none, none, ?_⟩
      rw [List.getElem?_eq_none_iff] at held
      rw [Option.map_none, List.getElem?_eq_none_iff, linked.length]
      exact held
  | some res =>
      obtain ⟨next, prev, slot, -⟩ := linked.slot held
      exact ⟨next, prev, slot⟩

/-! ## What links leave alone -/

section Kept

variable {α : Type} {related : Response → α → Prop} {merged : List Response} {others : List α}

theorem forall₂_modify (all : List.Forall₂ related merged others) (change : Response → Response)
    (kept : ∀ res other, related res other → related (change res) other) (i : ℕ) :
    List.Forall₂ related (merged.modify i change) others := by
  induction all generalizing i with
  | nil =>
      rw [List.modify_nil]
      exact .nil
  | cons first rest ih =>
      cases i with
      | zero => exact .cons (kept _ _ first) rest
      | succ i => exact .cons first (ih i)

/-- What is said of the slots, but not of their links, stays true of them. -/
theorem forall₂_linkResponses
    (kept : ∀ res other next prev, related res other →
      related { res with next := next, prev := prev } other)
    (all : List.Forall₂ related merged others) (before after : ℕ) :
    List.Forall₂ related (linkResponses merged before after) others :=
  forall₂_modify (forall₂_modify all _ (fun res other => kept res other _ res.prev) before) _
    (fun res other => kept res other res.next _) after

theorem forall₂_foldl {ι : Type} {round : List Response → ι → List Response}
    (kept : ∀ merged i, List.Forall₂ related merged others →
      List.Forall₂ related (round merged i) others)
    (all : List.Forall₂ related merged others) (indices : List ι) :
    List.Forall₂ related (indices.foldl round merged) others := by
  induction indices generalizing merged with
  | nil => exact all
  | cons i indices ih => exact ih (kept merged i all)

variable (kept : ∀ res other next prev, related res other →
  related { res with next := next, prev := prev } other)
include kept

theorem forall₂_mergeCommonContent (all : List.Forall₂ related merged others) :
    List.Forall₂ related (resMergeCommonContent merged) others := by
  refine forall₂_foldl (fun merged i all => ?_) all _
  split
  · split
    · exact forall₂_linkResponses kept all _ _
    · exact all
  · exact all

theorem forall₂_mergeCommonUrl (all : List.Forall₂ related merged others) (i j : ℕ) :
    List.Forall₂ related (resMergeCommonUrl merged i j) others := by
  induction j with
  | zero => exact all
  | succ j ih =>
      unfold resMergeCommonUrl
      split
      · split_ifs
        · exact ih
        · exact ih
        · exact forall₂_linkResponses kept all _ _
      · exact all

theorem forall₂_mergeCommonUrls (all : List.Forall₂ related merged others) :
    List.Forall₂ related (resMergeCommonUrls merged) others :=
  forall₂_foldl (fun _ i all => forall₂_mergeCommonUrl kept all i i) all _

end Kept

/-! ## Neighbours of the same content -/

/-- `res_content_eq` of a response and the one after it. -/
def joins (responses : List Response) (i : ℕ) : Bool :=
  match responses[i]?, responses[i + 1]? with
  | some a, some b => resContentEq a b
  | _, _ => false

theorem joins_eq_true {responses : List Response} {i : ℕ} :
    joins responses i = true ↔ ∃ a b, responses[i]? = some a ∧ responses[i + 1]? = some b ∧
      resContentEq a b = true := by
  unfold joins
  cases responses[i]? <;> cases responses[i + 1]? <;> simp

theorem Linked.joins_eq {responses merged : List Response} {joined : ℕ → ℕ → Prop}
    (linked : Linked responses merged joined) (i : ℕ) : joins merged i = joins responses i := by
  obtain ⟨_, _, first⟩ := linked.getElem?_eq i
  obtain ⟨_, _, second⟩ := linked.getElem?_eq (i + 1)
  unfold joins
  rw [first, second]
  cases responses[i]? <;> cases responses[i + 1]? <;> rfl

/-- The rounds of `res_merge_common_content`. -/
theorem resMergeCommonContent_eq (responses : List Response) :
    resMergeCommonContent responses = (List.range (responses.length - 1)).foldl
      (fun merged i => if joins merged i then linkResponses merged i (i + 1) else merged)
      responses := by
  unfold resMergeCommonContent
  congr 1
  funext merged i
  unfold joins
  cases merged[i]? <;> cases merged[i + 1]? <;> simp

/-- **A history is linked where neighbours have the same content.** -/
theorem linked_of_mergeCommonContent {responses : List Response} (unlinked : Unlinked responses) :
    Linked responses (resMergeCommonContent responses)
      fun i j => j = i + 1 ∧ joins responses i = true := by
  have rounds (count : ℕ) : Linked responses ((List.range count).foldl (fun merged i =>
      if joins merged i then linkResponses merged i (i + 1) else merged) responses)
        fun i j => (j = i + 1 ∧ joins responses i = true) ∧ i < count := by
    induction count with
    | zero => exact unlinked.linked.congr (by simp)
    | succ count ih =>
        rw [List.range_succ, List.foldl_append, List.foldl_cons, List.foldl_nil, ih.joins_eq]
        by_cases joined : joins responses count = true
        · rw [if_pos joined]
          refine (ih.link ?_ ?_).congr ?_
          · rintro j ⟨-, before⟩
            exact lt_irrefl _ before
          · rintro i ⟨⟨same, -⟩, before⟩
            omega
          · intro i j
            constructor
            · rintro (⟨both, before⟩ | ⟨rfl, rfl⟩)
              · exact ⟨both, by omega⟩
              · exact ⟨⟨rfl, joined⟩, by omega⟩
            · rintro ⟨⟨rfl, held⟩, before⟩
              rcases Nat.lt_succ_iff_lt_or_eq.mp before with earlier | rfl
              · exact .inl ⟨⟨rfl, held⟩, earlier⟩
              · exact .inr ⟨rfl, rfl⟩
        · rw [if_neg joined]
          refine ih.congr fun i j => and_congr_right fun both => ?_
          have other : i ≠ count := fun same => joined (same ▸ both.2)
          omega
  rw [resMergeCommonContent_eq]
  refine (rounds _).congr fun i j => and_iff_left_of_imp fun both => ?_
  obtain ⟨_, _, -, second, -⟩ := joins_eq_true.mp both.2
  have inArray := (List.getElem?_eq_some_iff.mp second).1
  omega

/-! ## Responses of one URL -/

/-- The URL at a position of an array. -/
def urlAt (responses : List Response) (i : ℕ) : Option Str := responses[i]?.map Response.url

/-- A response and the next one of its URL. -/
structure NextOfUrl (responses : List Response) (i j : ℕ) : Prop where
  lt : i < j
  within : j < responses.length
  same : urlAt responses i = urlAt responses j
  between : ∀ m, i < m → m < j → urlAt responses m ≠ urlAt responses j

/-- **One round of `res_merge_common_urls`** links a response to the last one before it of
its URL, when there is one. -/
theorem linked_of_mergeCommonUrl {responses merged : List Response} {i j : ℕ}
    (linked : Linked responses merged fun a b => NextOfUrl responses a b ∧ b < i)
    (within : i < responses.length) (before : j ≤ i)
    (passed : ∀ m, j ≤ m → m < i → urlAt responses m ≠ urlAt responses i) :
    Linked responses (resMergeCommonUrl merged i j)
      fun a b => NextOfUrl responses a b ∧ b < i + 1 := by
  induction j with
  | zero =>
      refine linked.congr fun a b => and_congr_right fun next => ?_
      have other : b ≠ i := by
        rintro rfl
        exact passed a (Nat.zero_le a) next.lt next.same
      omega
  | succ j ih =>
      obtain ⟨earlier, atJ⟩ : ∃ res, responses[j]? = some res :=
        ⟨_, List.getElem?_eq_getElem (by omega)⟩
      obtain ⟨current, atI⟩ : ∃ res, responses[i]? = some res :=
        ⟨_, List.getElem?_eq_getElem within⟩
      obtain ⟨next, _, slotJ, isNext, -⟩ := linked.slot atJ
      obtain ⟨_, _, slotI, -, -⟩ := linked.slot atI
      have goOn (different : urlAt responses j ≠ urlAt responses i) :
          Linked responses (resMergeCommonUrl merged i j)
            fun a b => NextOfUrl responses a b ∧ b < i + 1 := by
        apply ih (by omega)
        intro m least most
        rcases Nat.eq_or_lt_of_le least with rfl | later
        · exact different
        · exact passed m later most
      simp only [resMergeCommonUrl, slotJ, slotI]
      by_cases taken : next = none
      · rw [if_neg (not_not.mpr taken)]
        by_cases same : earlier.url = current.url
        · rw [if_neg (not_not.mpr same)]
          have sameUrl : urlAt responses j = urlAt responses i := by
            simp [urlAt, atJ, atI, same]
          have here : NextOfUrl responses j i := ⟨by omega, within, sameUrl, fun m after most =>
            passed m after most⟩
          refine (linked.link ?_ ?_).congr ?_
          · intro k joined
            rw [← isNext, taken] at joined
            cases joined
          · rintro a ⟨-, le⟩
            exact lt_irrefl _ le
          · intro a b
            constructor
            · rintro (⟨joined, le⟩ | ⟨rfl, rfl⟩)
              · exact ⟨joined, by omega⟩
              · exact ⟨here, by omega⟩
            · rintro ⟨joined, le⟩
              rcases Nat.lt_succ_iff_lt_or_eq.mp le with lt | rfl
              · exact .inl ⟨joined, lt⟩
              · refine .inr ⟨?_, rfl⟩
                rcases Nat.lt_trichotomy a j with first | rfl | first
                · exact absurd sameUrl (joined.between j first (by omega))
                · rfl
                · exact absurd joined.same (passed a first joined.lt)
        · rw [if_pos same]
          exact goOn (by simpa [urlAt, atJ, atI] using same)
      · rw [if_pos taken]
        apply goOn
        intro sameUrl
        obtain ⟨k, rfl⟩ := Option.ne_none_iff_exists'.mp taken
        obtain ⟨joined, lt⟩ := (isNext k).mp rfl
        exact passed k joined.lt lt (joined.same.symm.trans sameUrl)

/-- **The sources of a hash are linked to the next of their URL.** -/
theorem linked_of_mergeCommonUrls {responses : List Response} (unlinked : Unlinked responses) :
    Linked responses (resMergeCommonUrls responses) (NextOfUrl responses) := by
  have rounds (count : ℕ) (within : count ≤ responses.length) :
      Linked responses ((List.range count).foldl (fun merged i => resMergeCommonUrl merged i i)
        responses) fun i j => NextOfUrl responses i j ∧ j < count := by
    induction count with
    | zero => exact unlinked.linked.congr (by simp)
    | succ count ih =>
        rw [List.range_succ, List.foldl_append, List.foldl_cons, List.foldl_nil]
        exact linked_of_mergeCommonUrl (ih (by omega)) within (le_refl _)
          fun m least most => absurd most (not_lt.mpr least)
  rw [resMergeCommonUrls]
  exact (rounds _ (le_refl _)).congr fun i j => and_iff_left_of_imp NextOfUrl.within

theorem Linked.urlAt_eq {responses merged : List Response} {joined : ℕ → ℕ → Prop}
    (linked : Linked responses merged joined) (i : ℕ) : urlAt merged i = urlAt responses i := by
  obtain ⟨_, _, slot⟩ := linked.getElem?_eq i
  rw [urlAt, urlAt, slot, Option.map_map]
  rfl

/-- **The heads of the chains**: no response points to one exactly when none before it has
its URL. -/
theorem prev_eq_none_iff {responses : List Response} (unlinked : Unlinked responses) {i : ℕ}
    {res : Response} (held : (resMergeCommonUrls responses)[i]? = some res) :
    res.prev = none ↔ ∀ k < i, urlAt (resMergeCommonUrls responses) k ≠ some res.url := by
  have linked := linked_of_mergeCommonUrls unlinked
  have within : i < responses.length := by
    rw [← linked.length]
    exact (List.getElem?_eq_some_iff.mp held).1
  obtain ⟨_, prev, slot, -, isPrev⟩ := linked.slot (List.getElem?_eq_getElem within)
  cases held.symm.trans slot
  have here : urlAt responses i = some responses[i].url := by
    rw [urlAt, List.getElem?_eq_getElem within, Option.map_some]
  simp only [linked.urlAt_eq]
  constructor
  · intro noPrev k before same
    -- The last response before it that has its URL points to it.
    have found := Nat.findGreatest_spec (P := fun k => k < i ∧ urlAt responses k = urlAt responses i)
      before.le ⟨before, same.trans here.symm⟩
    have next : NextOfUrl responses _ i := ⟨found.1, within, found.2, fun m after most sameUrl =>
      Nat.findGreatest_is_greatest after most.le ⟨most, sameUrl⟩⟩
    rw [← isPrev, noPrev] at next
    cases next
  · intro first
    by_contra notNone
    obtain ⟨j, rfl⟩ := Option.ne_none_iff_exists'.mp notNone
    have next := (isPrev j).mp rfl
    exact first j next.lt (next.same.trans here)

/-! ## What a chain puts together -/

/-- `next` of one response points to the other. -/
def PointsTo (responses : List Response) (i j : ℕ) : Prop :=
  ∃ res, responses[i]? = some res ∧ res.next = some j

/-- Two responses are in one chain: one response leads to both. -/
def SameChain (responses : List Response) (i j : ℕ) : Prop :=
  ∃ head, Relation.ReflTransGen (PointsTo responses) head i ∧
    Relation.ReflTransGen (PointsTo responses) head j

/-- Two digests are the same as far as both go. -/
def SamePrefix (a b : List UInt8) : Prop :=
  a.take (min a.length b.length) = b.take (min a.length b.length)

/-- **No two responses of a chain conflict**: for every algorithm their digests are the
same as far as both go. -/
def NoConflict (responses : List Response) : Prop :=
  ∀ i j a b, SameChain responses i j → responses[i]? = some a → responses[j]? = some b →
    ∀ algo, SamePrefix (a.digests algo) (b.digests algo)

/-- Each response of a run matches its neighbour. -/
def JoinedRun (responses : List Response) (i j : ℕ) : Prop :=
  i ≤ j ∧ ∀ k, i ≤ k → k < j → joins responses k = true

/-- Two responses of a run that are separated only by responses with a shorter digest, or
none, have the same digest as far as both go. -/
def GapsAgree (responses : List Response) : Prop :=
  ∀ i j a b algo, JoinedRun responses i j → responses[i]? = some a → responses[j]? = some b →
    (∀ k c, i < k → k < j → responses[k]? = some c →
      (c.digests algo).length < min (a.digests algo).length (b.digests algo).length) →
    SamePrefix (a.digests algo) (b.digests algo)

theorem samePrefix_iff {a b : List UInt8} :
    SamePrefix a b ↔ ∀ p < min a.length b.length, a[p]? = b[p]? := by
  constructor
  · intro same p within
    have atP := congrArg (fun bytes : List UInt8 => bytes[p]?) same
    rwa [List.getElem?_take_of_lt within, List.getElem?_take_of_lt within] at atP
  · intro same
    refine List.ext_getElem? fun p => ?_
    rw [List.getElem?_take, List.getElem?_take]
    by_cases within : p < min a.length b.length
    · rw [if_pos within, if_pos within, same p within]
    · rw [if_neg within, if_neg within]

theorem SamePrefix.symm {a b : List UInt8} (same : SamePrefix a b) : SamePrefix b a := by
  rw [SamePrefix, min_comm]
  exact Eq.symm same

/-- A digest in between that is long enough carries the comparison over. -/
theorem SamePrefix.trans {a b c : List UInt8} (first : SamePrefix a c) (second : SamePrefix c b)
    (long : min a.length b.length ≤ c.length) : SamePrefix a b := by
  rw [samePrefix_iff] at first second ⊢
  intro p within
  exact (first p (by omega)).trans (second p (by omega))

section Content

variable {responses : List Response}

/-- **Across a run whose gaps agree, all digests agree.** -/
theorem GapsAgree.samePrefix (gaps : GapsAgree responses) {i j : ℕ} {a b : Response}
    (run : JoinedRun responses i j) (atI : responses[i]? = some a) (atJ : responses[j]? = some b)
    (algo : HashAlgo) : SamePrefix (a.digests algo) (b.digests algo) := by
  -- The run is split at a response between that is long enough, until there is none.
  induction length : j - i using Nat.strong_induction_on generalizing i j a b with
  | _ length ih =>
      subst length
      by_cases gap : ∀ k c, i < k → k < j → responses[k]? = some c →
          (c.digests algo).length < min (a.digests algo).length (b.digests algo).length
      · exact gaps i j a b algo run atI atJ gap
      · push Not at gap
        obtain ⟨k, c, after, before, atK, long⟩ := gap
        have left : JoinedRun responses i k :=
          ⟨after.le, fun m least most => run.2 m least (by omega)⟩
        have right : JoinedRun responses k j :=
          ⟨before.le, fun m least most => run.2 m (by omega) most⟩
        have first := ih (k - i) (by omega) left atI atK rfl
        have second := ih (j - k) (by omega) right atK atJ rfl
        exact first.trans second long

theorem Linked.pointsTo_iff {merged : List Response} {joined : ℕ → ℕ → Prop}
    (linked : Linked responses merged joined) {i j : ℕ} (within : joined i j → i < responses.length) :
    PointsTo merged i j ↔ joined i j := by
  constructor
  · rintro ⟨slot, held, next⟩
    obtain ⟨res, atI⟩ : ∃ res, responses[i]? = some res := by
      have inArray := (List.getElem?_eq_some_iff.mp held).1
      rw [linked.length] at inArray
      exact ⟨_, List.getElem?_eq_getElem inArray⟩
    obtain ⟨_, _, slotI, isNext, -⟩ := linked.slot atI
    cases slotI.symm.trans held
    exact (isNext j).mp next
  · intro holds
    obtain ⟨_, _, slotI, isNext, -⟩ := linked.slot (List.getElem?_eq_getElem (within holds))
    exact ⟨_, slotI, (isNext j).mpr holds⟩

/-- **The chains of a history are its runs of matching neighbours.** -/
theorem reflTransGen_iff_joinedRun (unlinked : Unlinked responses) {i j : ℕ} :
    Relation.ReflTransGen (PointsTo (resMergeCommonContent responses)) i j ↔
      JoinedRun responses i j := by
  have points {k m : ℕ} : PointsTo (resMergeCommonContent responses) k m ↔
      m = k + 1 ∧ joins responses k = true := by
    apply (linked_of_mergeCommonContent unlinked).pointsTo_iff
    intro both
    obtain ⟨_, _, first, -⟩ := joins_eq_true.mp both.2
    exact (List.getElem?_eq_some_iff.mp first).1
  constructor
  · intro reached
    induction reached with
    | refl => exact ⟨le_refl i, fun k least most => absurd most (not_lt.mpr least)⟩
    | tail _ step ih =>
        obtain ⟨rfl, joined⟩ := points.mp step
        refine ⟨ih.1.trans (Nat.le_succ _), fun k least most => ?_⟩
        rcases Nat.lt_succ_iff_lt_or_eq.mp most with before | rfl
        · exact ih.2 k least before
        · exact joined
  · rintro ⟨le, joined⟩
    induction j, le using Nat.le_induction with
    | base => exact .refl
    | succ j le ih =>
        have earlier := ih fun k least most => joined k least (by omega)
        exact earlier.tail (points.mpr ⟨rfl, joined j le (by omega)⟩)

/-- **A history is merged without conflict exactly when its gaps agree.** -/
theorem noConflict_iff_gapsAgree (unlinked : Unlinked responses) :
    NoConflict (resMergeCommonContent responses) ↔ GapsAgree responses := by
  have linked := linked_of_mergeCommonContent unlinked
  constructor
  · intro noConflict i j a b algo run atI atJ _
    obtain ⟨_, _, slotI, -⟩ := linked.slot atI
    obtain ⟨_, _, slotJ, -⟩ := linked.slot atJ
    exact noConflict i j _ _ ⟨i, .refl, (reflTransGen_iff_joinedRun unlinked).mpr run⟩
      slotI slotJ algo
  · rintro gaps i j a b ⟨head, toI, toJ⟩ slotI slotJ algo
    have original {k : ℕ} {slot : Response}
        (held : (resMergeCommonContent responses)[k]? = some slot) :
        ∃ res, responses[k]? = some res ∧ slot.digests = res.digests := by
      obtain ⟨_, _, same⟩ := linked.getElem?_eq k
      obtain ⟨res, atK, rfl⟩ := Option.map_eq_some_iff.mp (same.symm.trans held)
      exact ⟨res, atK, rfl⟩
    obtain ⟨first, atI, sameI⟩ := original slotI
    obtain ⟨second, atJ, sameJ⟩ := original slotJ
    rw [reflTransGen_iff_joinedRun unlinked] at toI toJ
    rw [sameI, sameJ]
    rcases le_total i j with le | le
    · exact gaps.samePrefix ⟨le, fun k least most => toJ.2 k (by have := toI.1; omega) most⟩
        atI atJ algo
    · exact (gaps.samePrefix ⟨le, fun k least most => toI.2 k (by have := toJ.1; omega) most⟩
        atJ atI algo).symm

/-- A history in which two neighbours match. -/
theorem noConflict_iff_gapsAgree_two : NoConflict (resMergeCommonContent
    [Response.sample, Response.sample]) ↔ GapsAgree [Response.sample, Response.sample] :=
  noConflict_iff_gapsAgree (by simp [Unlinked, Response.sample, Response.blank])

/-- A response with the given digests. -/
def Response.withDigests (digests : HashAlgo → List UInt8) : Response :=
  { Response.sample with digests := digests }

/-- Three responses: the first and the last have the same MD5 digest and different SHA-256
digests, the one between has the MD5 digest alone. -/
def conflictingHistory : List Response :=
  [.withDigests fun algo => match algo with
    | .md5 => List.replicate 16 1
    | .sha256 => List.replicate 32 2
    | _ => [],
   .withDigests fun algo => match algo with
    | .md5 => List.replicate 16 1
    | _ => [],
   .withDigests fun algo => match algo with
    | .md5 => List.replicate 16 1
    | .sha256 => List.replicate 32 3
    | _ => []]

/-- **Different content ends up in one chain.** -/
theorem conflictingHistory_conflicts : Unlinked conflictingHistory ∧
    ¬ NoConflict (resMergeCommonContent conflictingHistory) := by
  have unlinked : Unlinked conflictingHistory := by
    simp [Unlinked, conflictingHistory, Response.withDigests, Response.sample, Response.blank]
  have run : JoinedRun conflictingHistory 0 2 := by
    have each : ∀ k < 2, joins conflictingHistory k = true := by decide +kernel
    exact ⟨by decide, fun k _ most => each k most⟩
  have linked := linked_of_mergeCommonContent unlinked
  obtain ⟨_, _, first, -⟩ := linked.slot (i := 0) rfl
  obtain ⟨_, _, last, -⟩ := linked.slot (i := 2) rfl
  refine ⟨unlinked, fun noConflict => ?_⟩
  have same := noConflict 0 2 _ _ ⟨0, .refl, (reflTransGen_iff_joinedRun unlinked).mpr run⟩
    first last .sha256
  have different : ¬ SamePrefix (List.replicate 32 2) (List.replicate 32 3) := by
    unfold SamePrefix
    decide
  exact different same

end Content

end HashArchive.Db
