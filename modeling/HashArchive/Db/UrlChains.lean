import HashArchive.Db.Merging

/-!
# One chain for each URL

After `res_merge_common_urls` the sources of a hash fall into chains. A chain begins at
the first response of its URL, leads through all the responses of that URL in the order
of the array, and ends at the last one: `mergeCommonUrls_chains`.

Which positions the loop has linked is `linked_of_mergeCommonUrls`. Here the links are
followed: from a position the walk goes on with the rest of the array, and what it skips
has another URL (`Linked.visits`).
-/

set_option autoImplicit false

namespace HashArchive.Db

/-! ## Following the links -/

/-- **The positions that following `next` visits**, from the first to the last. -/
inductive Visits (responses : List Response) : ℕ → List ℕ → Prop
  | last {i : ℕ} {res : Response} (held : responses[i]? = some res) (ends : res.next = none) :
      Visits responses i [i]
  | step {i j : ℕ} {res : Response} {path : List ℕ} (held : responses[i]? = some res)
      (next : res.next = some j) (rest : Visits responses j path) : Visits responses i (i :: path)

/-- `prev` of one response points to the other. -/
def PointsBackTo (responses : List Response) (j i : ℕ) : Prop :=
  ∃ res, responses[j]? = some res ∧ res.prev = some i

/-- No response leads to this one. -/
def IsHead (responses : List Response) (i : ℕ) : Prop :=
  ∃ res, responses[i]? = some res ∧ res.prev = none

/-- A walk is determined by where it starts. -/
theorem Visits.unique {responses : List Response} {i : ℕ} {path other : List ℕ}
    (walk : Visits responses i path) (again : Visits responses i other) : path = other := by
  induction walk generalizing other with
  | last held ends =>
      cases again with
      | last _ _ => rfl
      | step same next _ =>
          cases held.symm.trans same
          rw [ends] at next
          cases next
  | step held next _ ih =>
      cases again with
      | last same ends =>
          cases held.symm.trans same
          rw [ends] at next
          cases next
      | step same other rest =>
          cases held.symm.trans same
          cases next.symm.trans other
          rw [ih rest]

/-! ## The responses of a URL -/

/-- The positions from one on that have its URL. -/
def chainFrom (responses : List Response) (i : ℕ) : List ℕ :=
  (List.range' i (responses.length - i)).filter fun j => urlAt responses j = urlAt responses i

/-- A stretch of the array without the URL adds nothing. -/
theorem filter_range'_eq_nil {responses : List Response} {url : Option Str} {start length : ℕ}
    (other : ∀ m, start ≤ m → m < start + length → urlAt responses m ≠ url) :
    (List.range' start length).filter (fun j => urlAt responses j = url) = [] := by
  rw [List.filter_eq_nil_iff]
  intro m member
  rw [List.mem_range'_1] at member
  rw [decide_eq_true_eq]
  exact other m member.1 member.2

/-- The last response of its URL. -/
theorem chainFrom_of_last {responses : List Response} {i : ℕ} (within : i < responses.length)
    (last : ∀ m, i < m → m < responses.length → urlAt responses m ≠ urlAt responses i) :
    chainFrom responses i = [i] := by
  have length : responses.length - i = (responses.length - (i + 1)) + 1 := by omega
  rw [chainFrom, length, List.range'_succ, List.filter_cons_of_pos (by simp),
    filter_range'_eq_nil fun m least most => last m least (by omega)]

/-- What comes before the next response of the URL is skipped. -/
theorem NextOfUrl.chainFrom_eq {responses : List Response} {i j : ℕ}
    (next : NextOfUrl responses i j) : chainFrom responses i = i :: chainFrom responses j := by
  have first := next.lt
  have second := next.within
  have length : responses.length - i = (j - (i + 1) + (responses.length - j)) + 1 := by omega
  have start : i + 1 + (j - (i + 1)) = j := by omega
  rw [chainFrom, length, List.range'_succ, List.filter_cons_of_pos (by simp),
    ← List.range'_append_1, start, List.filter_append, filter_range'_eq_nil, List.nil_append,
    chainFrom, next.same]
  intro m least most same
  exact next.between m least (by omega) (same.trans next.same)

/-- From the first response of its URL on are all of them. -/
theorem chainFrom_of_first {responses : List Response} {i : ℕ} (within : i < responses.length)
    (first : ∀ k < i, urlAt responses k ≠ urlAt responses i) :
    chainFrom responses i =
      (List.range responses.length).filter fun j => urlAt responses j = urlAt responses i := by
  have length : responses.length = i + (responses.length - i) := by omega
  have start : 0 + i = i := by omega
  conv_rhs => rw [List.range_eq_range', length, ← List.range'_append_1, List.filter_append]
  rw [filter_range'_eq_nil fun m _ most => first m (by omega), List.nil_append, chainFrom, start]

/-- A response that is not the last of its URL has a next one. -/
theorem exists_nextOfUrl {responses : List Response} {i m : ℕ} (after : i < m)
    (within : m < responses.length) (same : urlAt responses m = urlAt responses i) :
    ∃ j, NextOfUrl responses i j := by
  classical
  have exists' : ∃ j, i < j ∧ j < responses.length ∧ urlAt responses j = urlAt responses i :=
    ⟨m, after, within, same⟩
  obtain ⟨lt, inArray, sameUrl⟩ := Nat.find_spec exists'
  refine ⟨Nat.find exists', lt, inArray, sameUrl.symm, fun k least most again => ?_⟩
  exact Nat.find_min exists' most ⟨least, by omega, again.trans sameUrl⟩

/-! ## The chains -/

section Chains

variable {responses merged : List Response}

/-- **The walk from a position** visits what is left of its URL. -/
theorem Linked.visits (linked : Linked responses merged (NextOfUrl responses)) {i : ℕ}
    (within : i < responses.length) : Visits merged i (chainFrom responses i) := by
  induction length : responses.length - i using Nat.strong_induction_on generalizing i with
  | _ left ih =>
      subst left
      obtain ⟨next, _, slot, isNext, -⟩ := linked.slot (List.getElem?_eq_getElem within)
      cases next with
      | none =>
          rw [chainFrom_of_last within]
          · exact .last slot rfl
          · intro m after inArray same
            obtain ⟨j, next⟩ := exists_nextOfUrl after inArray same
            cases (isNext j).mpr next
      | some j =>
          have next := (isNext j).mp rfl
          rw [next.chainFrom_eq]
          have shorter : responses.length - j < responses.length - i := by
            have first := next.lt
            omega
          exact .step slot rfl (ih _ shorter next.within rfl)

theorem Linked.pointsBackTo_iff {joined : ℕ → ℕ → Prop}
    (linked : Linked responses merged joined) {i j : ℕ} (within : joined i j → j < responses.length) :
    PointsBackTo merged j i ↔ joined i j := by
  constructor
  · rintro ⟨slot, held, prev⟩
    have inArray := (List.getElem?_eq_some_iff.mp held).1
    rw [linked.length] at inArray
    obtain ⟨_, _, same, -, isPrev⟩ := linked.slot (List.getElem?_eq_getElem inArray)
    cases same.symm.trans held
    exact (isPrev i).mp prev
  · intro holds
    obtain ⟨_, _, slot, -, isPrev⟩ := linked.slot (List.getElem?_eq_getElem (within holds))
    exact ⟨_, slot, (isPrev i).mpr holds⟩

theorem isHead_iff (unlinked : Unlinked responses) {i : ℕ} :
    IsHead (resMergeCommonUrls responses) i ↔
      i < responses.length ∧ ∀ k < i, urlAt responses k ≠ urlAt responses i := by
  have linked := linked_of_mergeCommonUrls unlinked
  have urls {res : Response} (held : (resMergeCommonUrls responses)[i]? = some res) :
      urlAt responses i = some res.url := by
    rw [← linked.urlAt_eq, urlAt, held, Option.map_some]
  constructor
  · rintro ⟨res, held, noPrev⟩
    have inArray := (List.getElem?_eq_some_iff.mp held).1
    rw [linked.length] at inArray
    refine ⟨inArray, fun k before => ?_⟩
    rw [urls held, ← linked.urlAt_eq]
    exact (prev_eq_none_iff unlinked held).mp noPrev k before
  · rintro ⟨within, first⟩
    obtain ⟨_, _, slot, -⟩ := linked.slot (List.getElem?_eq_getElem within)
    refine ⟨_, slot, (prev_eq_none_iff unlinked slot).mpr fun k before => ?_⟩
    rw [linked.urlAt_eq, ← urls slot]
    exact first k before

/-- **The sources of a hash form one chain for each URL.** -/
theorem mergeCommonUrls_chains (responses : List Response) (unlinked : Unlinked responses) :
    (resMergeCommonUrls responses).length = responses.length ∧
    (∀ i, urlAt (resMergeCommonUrls responses) i = urlAt responses i) ∧
    (∀ i, IsHead (resMergeCommonUrls responses) i ↔
      i < responses.length ∧ ∀ k < i, urlAt responses k ≠ urlAt responses i) ∧
    (∀ i, IsHead (resMergeCommonUrls responses) i → ∀ path,
      Visits (resMergeCommonUrls responses) i path ↔
        path = (List.range responses.length).filter fun j =>
          urlAt responses j = urlAt responses i) ∧
    (∀ i j, PointsTo (resMergeCommonUrls responses) i j ↔
      PointsBackTo (resMergeCommonUrls responses) j i) ∧
    ∀ i, ¬ Relation.TransGen (PointsTo (resMergeCommonUrls responses)) i i := by
  have linked := linked_of_mergeCommonUrls unlinked
  have points {i j : ℕ} : PointsTo (resMergeCommonUrls responses) i j ↔ NextOfUrl responses i j :=
    linked.pointsTo_iff fun next => next.lt.trans next.within
  refine ⟨linked.length, linked.urlAt_eq, fun i => isHead_iff unlinked, ?_, ?_, ?_⟩
  · intro i head path
    obtain ⟨within, first⟩ := (isHead_iff unlinked).mp head
    have walk := linked.visits within
    rw [chainFrom_of_first within first] at walk
    constructor
    · intro again
      exact again.unique walk
    · rintro rfl
      exact walk
  · intro i j
    rw [points, linked.pointsBackTo_iff NextOfUrl.within]
  · intro i cycle
    have increasing {j : ℕ} (reached :
        Relation.TransGen (PointsTo (resMergeCommonUrls responses)) i j) : i < j := by
      induction reached with
      | single step => exact (points.mp step).lt
      | tail _ step ih => exact ih.trans (points.mp step).lt
    exact lt_irrefl i (increasing cycle)

/-- Two responses of one URL. -/
theorem mergeCommonUrls_chains_two :
    Visits (resMergeCommonUrls [Response.sample, Response.sample]) 0 [0, 1] ∧
    ¬ IsHead (resMergeCommonUrls [Response.sample, Response.sample]) 1 := by
  obtain ⟨-, -, heads, walks, -, -⟩ := mergeCommonUrls_chains [Response.sample, Response.sample]
    (by simp [Unlinked, Response.sample, Response.blank])
  constructor
  · refine (walks 0 ((heads 0).mpr ⟨by decide, by simp⟩) [0, 1]).mpr ?_
    rfl
  · intro head
    exact ((heads 1).mp head).2 0 (by decide) rfl

end Chains

end HashArchive.Db
