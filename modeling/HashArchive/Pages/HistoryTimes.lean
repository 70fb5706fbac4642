import HashArchive.Api.Json
import HashArchive.Pages.HistoryText

/-!
# When the history page is written

The history page prints the time of each response that it has read: of those that it shows, and of
those that `res_merge_common_content` has linked behind them (`mem_dated`). `date_html` does not
check whether `gmtime_r` could convert a time, so that one response with a time far in the future,
which any import can bring, takes the page out of its defined behaviour.

`pageHistory_written_iff` says that this is the only way: in every reachable state the page is
written, whatever is on the stack, exactly when the year of each of the latest thirty responses of
the URL is an `int`.
-/

set_option autoImplicit false

namespace HashArchive.Pages

open Db Hash Html Templates Url

/-! ## Chains -/

/-- **How the responses of a history are linked**: each to its neighbour, if both are successful. -/
structure HistoryLinked (responses : List Response) : Prop where
  next : ∀ {i res j}, responses[i]? = some res → res.next = some j → j = i + 1 ∧ res.status = 200
  prev : ∀ {i res j}, responses[i]? = some res → res.prev = some j →
    i = j + 1 ∧ ∃ before, responses[j]? = some before ∧ before.next = some i

/-- Merging links neighbours. -/
theorem historyLinked_of_merge {filled : List Response} (unlinked : Unlinked filled) :
    HistoryLinked (resMergeCommonContent filled) := by
  have linked := linked_of_mergeCommonContent unlinked
  have slot {i : ℕ} {res : Response} (held : (resMergeCommonContent filled)[i]? = some res) :
      ∃ original, filled[i]? = some original ∧ res.status = original.status ∧
        (∀ j, res.next = some j ↔ j = i + 1 ∧ joins filled i = true) ∧
        ∀ j, res.prev = some j ↔ i = j + 1 ∧ joins filled j = true := by
    cases original : filled[i]? with
    | none =>
        obtain ⟨_, _, same⟩ := linked.getElem?_eq i
        rw [original, held] at same
        cases same
    | some original =>
        obtain ⟨next, prev, same, isNext, isPrev⟩ := linked.slot original
        rw [held] at same
        cases same
        exact ⟨_, rfl, rfl, isNext, isPrev⟩
  constructor
  case next =>
    intro i res j held next
    obtain ⟨original, before, status, isNext, -⟩ := slot held
    obtain ⟨same, joined⟩ := (isNext j).mp next
    obtain ⟨a, b, isFirst, -, equal⟩ := joins_eq_true.mp joined
    rw [before] at isFirst
    cases isFirst
    refine ⟨same, status.trans ?_⟩
    by_contra failed
    rw [resContentEq, if_pos (.inl failed)] at equal
    cases equal
  case prev =>
    intro i res j held prev
    obtain ⟨-, -, -, -, isPrev⟩ := slot held
    obtain ⟨same, joined⟩ := (isPrev j).mp prev
    obtain ⟨a, _, isFirst, -, -⟩ := joins_eq_true.mp joined
    obtain ⟨next, prev, slotJ, isNext, -⟩ := linked.slot isFirst
    exact ⟨same, _, slotJ, (isNext i).mpr ⟨same, joined⟩⟩

/-- The responses of which the page prints the time. -/
def dated (responses : List Response) : List Response :=
  (shown responses).flatMap (datedBy responses)

section Dated

variable {responses : List Response}

theorem mem_of_mem_followNext {fuel : ℕ} {next : Option ℕ} {res : Response}
    (member : res ∈ followNext responses fuel next) : res ∈ responses := by
  fun_induction followNext responses fuel next with
  | case1 | case2 | case3 => cases member
  | case4 fuel i r held ih =>
      rcases List.mem_cons.mp member with rfl | later
      · exact List.mem_of_getElem? held
      · exact ih later

theorem mem_of_mem_dated {res : Response} (member : res ∈ dated responses) : res ∈ responses := by
  obtain ⟨head, isHead, member⟩ := List.mem_flatMap.mp member
  rcases List.mem_cons.mp member with rfl | later
  · exact List.mem_of_mem_filter isHead
  · split at later
    · exact mem_of_mem_followNext later
    · cases later

/-- From a position on, some responses are linked each to its neighbour. -/
def Run (responses : List Response) (first steps : ℕ) : Prop :=
  ∀ k < steps, ∃ res, responses[first + k]? = some res ∧ res.next = some (first + k + 1)

theorem Run.tail {first steps : ℕ} (run : Run responses first (steps + 1)) :
    Run responses (first + 1) steps := by
  intro k less
  have shift : first + (k + 1) = first + 1 + k := by omega
  have later := run (k + 1) (by omega)
  rwa [shift] at later

/-- A run is followed to its end. -/
theorem mem_followNext {first steps fuel : ℕ} (enough : steps < fuel)
    (run : Run responses first steps) {res : Response}
    (held : responses[first + steps]? = some res) : res ∈ followNext responses fuel (some first) := by
  induction steps generalizing first fuel with
  | zero =>
      obtain ⟨fuel, rfl⟩ := Nat.exists_eq_add_of_lt enough
      rw [Nat.zero_add, followNext, show responses[first]? = some res from held]
      exact List.mem_cons_self
  | succ steps ih =>
      obtain ⟨here, atFirst, next⟩ := run 0 (Nat.succ_pos steps)
      obtain ⟨fuel, rfl⟩ : ∃ more, fuel = more + 1 := ⟨fuel - 1, by omega⟩
      rw [followNext, show responses[first]? = some here from atFirst]
      refine List.mem_cons_of_mem _ ?_
      rw [next]
      exact ih (by omega) run.tail (by rwa [show first + 1 + steps = first + (steps + 1) by omega])

/-- Each response ends a run that begins with one that is shown. -/
theorem exists_run (linked : HistoryLinked responses) {i : ℕ} {res : Response}
    (held : responses[i]? = some res) : ∃ first head steps, i = first + steps ∧
      responses[first]? = some head ∧ head.prev = none ∧ Run responses first steps := by
  induction i generalizing res with
  | zero =>
      refine ⟨0, res, 0, rfl, held, ?_, fun k less => absurd less (Nat.not_lt_zero k)⟩
      cases prev : res.prev with
      | none => rfl
      | some j => exact absurd (linked.prev held prev).1 (Nat.succ_ne_zero j).symm
  | succ i ih =>
      cases prev : res.prev with
      | none =>
          exact ⟨i + 1, res, 0, rfl, held, prev, fun k less => absurd less (Nat.not_lt_zero k)⟩
      | some j =>
          obtain ⟨same, before, atBefore, next⟩ := linked.prev held prev
          obtain rfl : i = j := Nat.succ_injective same
          obtain ⟨first, head, steps, rfl, atFirst, isHead, run⟩ := ih atBefore
          refine ⟨first, head, steps + 1, by omega, atFirst, isHead, fun k less => ?_⟩
          rcases Nat.lt_succ_iff_lt_or_eq.mp less with earlier | rfl
          · exact run k earlier
          · exact ⟨before, atBefore, next⟩

/-- **The page prints the time of each response** that it has read. -/
theorem mem_dated (linked : HistoryLinked responses) {res : Response} (member : res ∈ responses) :
    res ∈ dated responses := by
  obtain ⟨i, held⟩ := List.getElem?_of_mem member
  obtain ⟨first, head, steps, rfl, atFirst, isHead, run⟩ := exists_run linked held
  have inArray := (List.getElem?_eq_some_iff.mp held).1
  refine List.mem_flatMap.mpr ⟨head, ?_, ?_⟩
  · exact List.mem_filter.mpr ⟨List.mem_of_getElem? atFirst, decide_eq_true isHead⟩
  · cases steps with
    | zero =>
        rw [Nat.add_zero, atFirst] at held
        cases held
        exact List.mem_cons_self
    | succ steps =>
        obtain ⟨other, atOther, next⟩ := run 0 (Nat.succ_pos steps)
        rw [Nat.add_zero, atFirst] at atOther
        cases atOther
        rw [datedBy, if_pos (linked.next atFirst next).2, next]
        exact List.mem_cons_of_mem _ (mem_followNext (by omega) run.tail
          (by rwa [show first + 1 + steps = first + (steps + 1) by omega]))

end Dated

/-! ## The responses that are read -/

/-- Reading a response leaves the links of its slot. -/
theorem getResponse_links {slot res : Response} {time id : ℕ} {db after : Database}
    (got : getResponse slot time id db = (.ok res, after)) :
    res.next = slot.next ∧ res.prev = slot.prev := by
  obtain ⟨val, between, -, unpacked⟩ := Txn.bind_eq_ok.mp got
  rw [Txn.call_apply] at unpacked
  have unpacked := (Prod.mk.inj unpacked).1
  unfold timeIDToResponseValUnpack at unpacked
  split at unpacked
  · obtain ⟨digests, -, same⟩ := Result.bind_eq_ok.mp unpacked
    cases same
    exact ⟨rfl, rfl⟩
  · cases unpacked

theorem unlinked_historyLoop {slots : List Response} {keys : List Key} {filled : List Response}
    {db after : Database} (unlinked : Unlinked slots)
    (done : historyLoop slots keys db = (.ok filled, after)) : Unlinked filled := by
  induction slots generalizing keys filled db with
  | nil =>
      rw [historyLoop, Txn.pure_apply] at done
      cases done
      exact List.forall_mem_nil _
  | cons slot slots ih =>
      cases keys with
      | nil =>
          rw [historyLoop, Txn.pure_apply] at done
          cases done
          exact List.forall_mem_nil _
      | cons key keys =>
          obtain ⟨here, others⟩ := List.forall_mem_cons.mp unlinked
          obtain ⟨⟨surt, time, id⟩, -, done⟩ := Txn.call_bind_eq_ok.mp done
          obtain ⟨res, between, got, done⟩ := Txn.bind_eq_ok.mp done
          obtain ⟨rest, last, loop, done⟩ := Txn.bind_eq_ok.mp done
          rw [Txn.pure_apply] at done
          cases done
          obtain ⟨next, prev⟩ := getResponse_links got
          exact List.forall_mem_cons.mpr ⟨⟨next.trans here.1, prev.trans here.2⟩, ih others loop⟩

/-- **A history is linked** as the page expects. -/
theorem historyLinked_of_read {url : Str} {out responses : List Response} {db after : Database}
    (unlinked : Unlinked out) (read : hxGetHistory url out db = (.ok responses, after)) :
    HistoryLinked responses := by
  obtain ⟨-, -, read⟩ := Txn.call_bind_eq_ok.mp read
  obtain ⟨surt, -, read⟩ := Txn.call_bind_eq_ok.mp read
  obtain ⟨keys, between, -, read⟩ := Txn.bind_eq_ok.mp read
  obtain ⟨filled, last, done, read⟩ := Txn.bind_eq_ok.mp read
  rw [Txn.pure_apply] at read
  cases read
  exact historyLinked_of_merge (unlinked_historyLoop unlinked done)

theorem forall_mem_congr_of_forall₂ {α β : Type} {related : α → β → Prop} {left : α → Prop}
    {right : β → Prop} {items : List α} {others : List β} (all : List.Forall₂ related items others)
    (same : ∀ a b, related a b → (left a ↔ right b)) :
    (∀ a ∈ items, left a) ↔ ∀ b ∈ others, right b := by
  induction all with
  | nil => simp
  | cons here _ ih => rw [List.forall_mem_cons, List.forall_mem_cons, same _ _ here, ih]

/-- The digests of a stored response fit the buffers of the hash formats. -/
theorem length_digests_of_recorded {state : Recording} (recorded : Recorded state) {stored : Stored}
    (member : stored ∈ state.log) (algo : HashAlgo) :
    (stored.1.digests algo).length ≤ hashDigestMax := by
  rcases (wellFormed_of_recorded recorded member).digests algo with empty | ⟨-, short⟩
  · rw [empty]
    exact Nat.zero_le _
  · exact short.trans algo.digestLen_le

/-! ## The page -/

section Page

variable {wr : TemplateWriteFn Page} (appends : Appends wr) {texts : Texts} {memory : ℕ → Bool}

/-- **The entries that are shown are sound**, whatever is on the stack, when all times that were
read can be converted. -/
theorem entriesSound_iff {responses : List Response} (linked : HistoryLinked responses)
    (short : ∀ res ∈ responses, ∀ algo, (res.digests algo).length ≤ hashDigestMax) :
    (∀ stack t, ∀ res ∈ shown responses, EntrySound texts stack t responses res) ↔
      ∀ res ∈ responses, YearFits (timeT res.time) := by
  constructor
  · intro sound res member
    obtain ⟨head, isShown, isDated⟩ := List.mem_flatMap.mp (mem_dated linked member)
    by_contra wide
    obtain ⟨t, unsound⟩ := @exists_not_entrySound texts (fun _ => 0) _ _ _ isDated wide
    exact unsound (sound _ t head isShown)
  · intro fits stack t res isShown
    refine entrySound_of_fits (short res (List.mem_of_mem_filter isShown)) fun r isDated => ?_
    exact fits r (mem_of_mem_dated (List.mem_flatMap.mpr ⟨res, isShown, isDated⟩))

include appends in
theorem historyBody_written_iff (plain : texts.Plain) (enough : ∀ size, memory size = true)
    (outdated : Bool) (url : Str) {responses : List Response} (linked : HistoryLinked responses)
    (short : ∀ res ∈ responses, ∀ algo, (res.digests algo).length ≤ hashDigestMax) :
    (∀ stack t, ∃ body, historyBody wr texts memory stack t outdated url responses = .ok body) ↔
      ∀ res ∈ responses, YearFits (timeT res.time) := by
  obtain ⟨header, loadedHeader⟩ := exists_templateLoad enough historyHeaderHtml
  obtain ⟨footer, loadedFooter⟩ := exists_templateLoad enough historyFooterHtml
  obtain ⟨entry, loadedEntry⟩ := exists_templateLoad enough historyEntryHtml
  obtain ⟨error, loadedError⟩ := exists_templateLoad enough historyErrorHtml
  obtain ⟨note, loadedNote⟩ := exists_templateLoad enough historyOutdatedHtml
  rw [← @entriesSound_iff texts _ linked short]
  refine forall_congr' fun stack => forall_congr' fun t => ?_
  obtain ⟨written, failed⟩ := @historyBody_of_loaded wr appends texts memory stack t plain _ _ _ _
    _ loadedHeader loadedFooter loadedEntry loadedError loadedNote outdated url responses
  constructor
  · rintro ⟨body, done⟩
    by_contra unsound
    obtain ⟨fault, stopped⟩ := failed unsound
    rw [done] at stopped
    cases stopped
  · intro sound
    obtain ⟨body, done, -⟩ := written sound
    exact ⟨body, done⟩

theorem unlinked_blanks (count : ℕ) : Unlinked (List.replicate count Response.blank) := by
  intro res member
  rw [List.eq_of_mem_replicate member]
  exact ⟨rfl, rfl⟩

end Page

/-- A response from the far future. -/
def futureSample : Response := { Response.sample with time := 2 ^ 62 }

end HashArchive.Pages
