import HashArchive.Db.Times

/-!
# The dump

`api_dump` writes the responses of a window of time. It reads them fifty at a time, each
batch in a transaction of its own, while other requests and crawls go on storing
responses: a batch starts right after the last response of the one before. The dump ends
at a batch that is not full or that reaches the end of the window.

`dump_exact` says that the window is written in order and without repetition, and that
nothing is missed that was stored when the dump began.
-/

set_option autoImplicit false

namespace HashArchive.Api

open Db

/-! ## The function -/

/-- `CONFIG_API_BATCH_SIZE`. -/
def configApiBatchSize : ℕ := 50

/-- A response of a batch is written unless it is past the end of the window. -/
def inWindow (start duration : ℕ) (res : Response) : Bool :=
  ¬ res.time ≥ (start + duration) % 2 ^ 64

/-- What a batch writes: the responses before the first one past the end. -/
def writeBatch (start duration : ℕ) (responses : List Response) : List Response :=
  responses.takeWhile (inWindow start duration)

/-- The loop of `api_dump`: the responses it writes. Each batch reads the database of its
moment; `none` when the fuel runs out. -/
def apiDumpLoop (start duration : ℕ) (snapshot : ℕ → Database) :
    ℕ → ℕ → ℕ → ℕ → List Response → Option (Result (List Response))
  | 0, _, _, _, _ => none
  | fuel + 1, moment, time, id, responses =>
    match (hxGetTimes time id responses (snapshot moment)).1 with
    | .error (.fault fault) => some (.error (.fault fault))
    | .error (.code _) => some (.ok [])
    | .ok filled =>
      match filled.getLast? with
      | none => some (.ok [])
      | some last =>
        let written := writeBatch start duration filled
        if filled.length < responses.length then some (.ok written)
        else if last.time ≥ (start + duration) % 2 ^ 64 then some (.ok written)
        else
          (apiDumpLoop start duration snapshot fuel (moment + 1) last.time
            ((last.id + 1) % 2 ^ 64) filled).map fun rest => rest.map (written ++ ·)

/-- `api_dump`. -/
def apiDump (start duration : ℕ) (snapshot : ℕ → Database) (fuel : ℕ) :
    Option (Result (List Response)) :=
  if duration = 0 then some (.ok [])
  else apiDumpLoop start duration snapshot fuel 0 start 0
    (List.replicate configApiBatchSize Response.blank)

/-! ## Batches and pages -/

/-- Where the batch after a response starts. -/
def successor (stored : Stored) : ℕ ×ₗ ℕ := toLex (stored.1.time, stored.2 + 1)

theorem successor_le_iff {first second : Stored} :
    successor first ≤ second.position ↔ first.position < second.position := by
  rw [Stored.position_lt_iff, successor, Stored.position, Prod.Lex.toLex_le_toLex]
  rfl

/-- A stored response of the window. -/
def wanted (start duration : ℕ) (stored : Stored) : Bool := stored.1.time < start + duration

theorem wanted_down {start duration : ℕ} {first second : Stored}
    (before : first.position ≤ second.position) (inside : wanted start duration second = true) :
    wanted start duration first = true := by
  rw [wanted, decide_eq_true_eq] at inside ⊢
  rcases Prod.Lex.toLex_le_toLex.mp before with earlier | ⟨same, -⟩
  · exact lt_trans earlier inside
  · exact (show first.1.time = second.1.time from same) ▸ inside

/-- What a batch writes are the wanted responses of its page. -/
theorem forall₂_writeBatch {start duration : ℕ} (noWrap : start + duration < 2 ^ 64)
    {filled : List Response} {page : List Stored} (holds : List.Forall₂ Holds filled page) :
    List.Forall₂ Holds (writeBatch start duration filled)
      (page.takeWhile (wanted start duration)) := by
  induction holds with
  | nil => exact .nil
  | @cons slot stored filled page holds _ ih =>
      have same : inWindow start duration slot = wanted start duration stored := by
        rw [inWindow, wanted, holds.time, Nat.mod_eq_of_lt noWrap]
        simp
      unfold writeBatch at ih ⊢
      rw [List.takeWhile_cons, List.takeWhile_cons, same]
      split
      · exact .cons holds ih
      · exact .nil

theorem forall₂_getLast? {filled : List Response} {page : List Stored}
    (holds : List.Forall₂ Holds filled page) :
    (filled.getLast? = none ∧ page = []) ∨ ∃ slot stored, filled.getLast? = some slot ∧
      stored ∈ page.getLast? ∧ Holds slot stored := by
  induction holds with
  | nil => exact .inl ⟨rfl, rfl⟩
  | @cons slot stored filled page holds rest ih =>
      rcases ih with ⟨none, rfl⟩ | ⟨last, lastStored, atEnd, atEndStored, holdsLast⟩
      · obtain rfl := List.getLast?_eq_none_iff.mp none
        exact .inr ⟨slot, stored, rfl, rfl, holds⟩
      · refine .inr ⟨last, lastStored, ?_, ?_, holdsLast⟩
        · rw [List.getLast?_cons, atEnd]
          rfl
        · rw [List.getLast?_cons, Option.mem_def.mp atEndStored]
          rfl

/-! ## Runs of the dump -/

section Steps

variable {start duration moment time id : ℕ} {snapshot : ℕ → Database}
  {slots filled : List Response} {after : Database}

/-- A batch that is not full or that reaches the end of the window is the last one. -/
theorem apiDumpLoop_last
    (read : hxGetTimes time id slots (snapshot moment) = (.ok filled, after))
    (stop : filled.length < slots.length ∨
      ∃ last ∈ filled.getLast?, last.time ≥ (start + duration) % 2 ^ 64) (fuel : ℕ) :
    apiDumpLoop start duration snapshot (fuel + 1) moment time id slots =
      some (.ok (writeBatch start duration filled)) := by
  simp only [apiDumpLoop, read]
  cases atEnd : filled.getLast? with
  | none =>
      rw [List.getLast?_eq_none_iff.mp atEnd]
      rfl
  | some last =>
      by_cases short : filled.length < slots.length
      · simp only [if_pos short]
      · obtain ⟨other, same, past⟩ := stop.resolve_left short
        cases atEnd.symm.trans (Option.mem_def.mp same)
        simp only [if_neg short, if_pos past]

/-- After any other batch the dump goes on right after its last response. -/
theorem apiDumpLoop_more
    (read : hxGetTimes time id slots (snapshot moment) = (.ok filled, after))
    (full : filled.length = slots.length) {last : Response} (atEnd : last ∈ filled.getLast?)
    (before : last.time < (start + duration) % 2 ^ 64) {fuel : ℕ} {rest : List Response}
    (others : apiDumpLoop start duration snapshot fuel (moment + 1) last.time
      ((last.id + 1) % 2 ^ 64) filled = some (.ok rest)) :
    apiDumpLoop start duration snapshot (fuel + 1) moment time id slots =
      some (.ok (writeBatch start duration filled ++ rest)) := by
  simp only [apiDumpLoop, read, Option.mem_def.mp atEnd]
  rw [if_neg (by omega), if_neg (by omega), others]
  rfl

end Steps

/-- What remains of the window gets less from a response on. -/
theorem remaining_lt {stop time id size : ℕ} {stored : Stored}
    (from_ : toLex (time, id) ≤ stored.position) (inside : stored.1.time < stop)
    (small : stored.2 + 1 < size) :
    (stop - stored.1.time) * size + (size - (stored.2 + 1)) < (stop - time) * size + (size - id) := by
  rcases Prod.Lex.toLex_le_toLex.mp from_ with later | ⟨same, atLeast⟩
  · have earlier : time < stored.1.time := later
    have atMost := Nat.mul_le_mul_right size
      (show stop - stored.1.time + 1 ≤ stop - time by omega)
    rw [Nat.add_mul, Nat.one_mul] at atMost
    omega
  · have fromId : id ≤ stored.2 := atLeast
    rw [show time = stored.1.time from same]
    omega

section Dump

variable {snapshot : ℕ → Recording} {start duration : ℕ}

/-- What a dump collects that reads `count` responses at a time. -/
abbrev Dumped (snapshot : ℕ → Recording) (start duration count : ℕ) :
    ℕ → ℕ ×ₗ ℕ → List Stored → Prop :=
  Paged Stored.position successor count (fun moment stored => stored ∈ (snapshot moment).log)
    (wanted start duration)

/-- **The loop ends**, and has read in pages what it writes. -/
theorem apiDumpLoop_paged (recorded : ∀ moment, Recorded (snapshot moment))
    (ids : ∀ moment, ∀ stored ∈ (snapshot moment).log, stored.2 < 2 ^ 64 - 1)
    (noWrap : start + duration < 2 ^ 64) (bound moment time id : ℕ)
    {slots : List Response} (room : 0 < slots.length) (small : id < 2 ^ 64)
    (left : (start + duration - time) * 2 ^ 64 + (2 ^ 64 - id) ≤ bound) :
    ∃ enough emitted listed,
      (∀ fuel ≥ enough, apiDumpLoop start duration (fun moment => (snapshot moment).db) fuel
        moment time id slots = some (.ok emitted)) ∧
      List.Forall₂ Holds emitted listed ∧
      Dumped snapshot start duration slots.length moment (toLex (time, id)) listed := by
  induction bound generalizing moment time id slots with
  | zero => omega
  | succ bound ih =>
      obtain ⟨filled, page, read, holds, isPage⟩ :=
        hxGetTimes_of_recorded (recorded moment) time id slots
      have written := forall₂_writeBatch noWrap holds
      have sameLength := holds.length_eq
      by_cases stop : filled.length < slots.length ∨
          ∃ last ∈ filled.getLast?, last.time ≥ (start + duration) % 2 ^ 64
      · have stopped : page.length < slots.length ∨
            ∃ stored ∈ page, wanted start duration stored = false := by
          refine stop.imp (fun short => sameLength ▸ short) ?_
          rintro ⟨last, atEnd, past⟩
          rcases forall₂_getLast? holds with ⟨none, -⟩ | ⟨_, stored, same, atEndPage, holdsLast⟩
          · rw [none] at atEnd
            cases atEnd
          · cases (Option.mem_def.mp atEnd).symm.trans same
            rw [Nat.mod_eq_of_lt noWrap, holdsLast.time] at past
            exact ⟨stored, List.mem_of_mem_getLast? atEndPage, by simp [wanted, past]⟩
        refine ⟨1, _, _, fun fuel more => ?_, written, .last isPage stopped⟩
        obtain ⟨fuel, rfl⟩ := Nat.exists_eq_add_of_le' more
        exact apiDumpLoop_last read stop fuel
      · obtain ⟨long, noneAfter⟩ := not_or.mp stop
        have full : filled.length = slots.length := by
          have few := isPage.few
          omega
        rcases forall₂_getLast? holds with ⟨-, rfl⟩ | ⟨last, stored, atEnd, atEndPage, holdsLast⟩
        · rw [full] at sameLength
          simp only [List.length_nil] at sameLength
          omega
        · have inPage := List.mem_of_mem_getLast? atEndPage
          have before : last.time < (start + duration) % 2 ^ 64 := by
            by_contra past
            exact noneAfter ⟨last, atEnd, not_lt.mp past⟩
          have inside : wanted start duration stored = true := by
            rw [Nat.mod_eq_of_lt noWrap, holdsLast.time] at before
            simp [wanted, before]
          obtain ⟨inLog, from_⟩ := isPage.sound stored inPage
          have nextId : (last.id + 1) % 2 ^ 64 = stored.2 + 1 := by
            have smallId := ids moment stored inLog
            rw [holdsLast.id, Nat.mod_eq_of_lt (by omega)]
          have smallNext : stored.2 + 1 < 2 ^ 64 := by
            have smallId := ids moment stored inLog
            omega
          have decreases := lt_of_lt_of_le (remaining_lt from_ (by
            rw [wanted, decide_eq_true_eq] at inside
            exact inside) smallNext) left
          rw [← holdsLast.time] at decreases
          obtain ⟨enough, rest, others, done, holdsRest, paged⟩ :=
            ih (moment + 1) last.time (stored.2 + 1) (show 0 < filled.length by omega) smallNext
              (Nat.le_of_lt_succ decreases)
          have allWanted : page.takeWhile (wanted start duration) = page := by
            refine List.takeWhile_eq_self_iff.mpr fun other member => wanted_down ?_ inside
            exact le_of_mem_getLast? isPage.ordered atEndPage member
          rw [allWanted] at written
          rw [full, holdsLast.time] at paged
          refine ⟨enough + 1, writeBatch start duration filled ++ rest, page ++ others,
            fun fuel more => ?_, List.rel_append written holdsRest,
            .more isPage atEndPage inside paged⟩
          obtain ⟨fuel, rfl⟩ := Nat.exists_eq_add_of_le' (show 1 ≤ fuel by omega)
          exact apiDumpLoop_more read full atEnd before (nextId ▸ done fuel (by omega))

end Dump

/-- **The dump of a window is exact**, while responses are stored between its batches. It
ends, and writes responses of the window in order of time and id, each of which was stored
at some moment; every response of the window that was stored when it began is written once. -/
theorem dump_exact {snapshot : ℕ → Recording}
    (began : recording.Reaches Machine.anyStep (snapshot 0))
    (grows : ∀ moment, recording.Leads Machine.anyStep (snapshot moment) (snapshot (moment + 1)))
    (ids : ∀ moment, ∀ stored ∈ (snapshot moment).log, stored.2 < 2 ^ 64 - 1)
    {start duration : ℕ} (positive : 1 ≤ duration) (noWrap : start + duration < 2 ^ 64) :
    ∃ enough emitted listed,
      (∀ fuel ≥ enough, apiDump start duration (fun moment => (snapshot moment).db) fuel =
        some (.ok emitted)) ∧
      List.Forall₂ Holds emitted listed ∧
      (listed.Pairwise fun first second => first.position < second.position) ∧
      (∀ stored ∈ listed, start ≤ stored.1.time ∧ stored.1.time < start + duration ∧
        ∃ moment, stored ∈ (snapshot moment).log) ∧
      ∀ stored ∈ (snapshot 0).log, start ≤ stored.1.time → stored.1.time < start + duration →
        listed.count stored = 1 := by
  have reached (moment : ℕ) : recording.Reaches Machine.anyStep (snapshot moment) := by
    induction moment with
    | zero => exact began
    | succ moment ih => exact Machine.Leads.trans ih (grows moment)
  have recorded (moment : ℕ) := recorded_of_reaches (reached moment)
  have logGrows (moment : ℕ) (stored : Stored) (inLog : stored ∈ (snapshot moment).log) :
      stored ∈ (snapshot (moment + 1)).log :=
    (recorded_of_leads (recorded moment) (grows moment)).2.subset inLog
  obtain ⟨enough, emitted, listed, done, holds, paged⟩ := apiDumpLoop_paged recorded ids noWrap _
    0 start 0
    (show 0 < (List.replicate configApiBatchSize Response.blank).length by decide)
    (Nat.two_pow_pos 64) (le_refl _)
  have down (first second : Stored) (before : first.position ≤ second.position)
      (inside : wanted start duration second = true) : wanted start duration first = true :=
    wanted_down before inside
  have after (first second : Stored) := @successor_le_iff first second
  have sorted := paged.sorted down after
  refine ⟨enough, emitted, listed, fun fuel more => ?_, holds, sorted, fun stored member => ?_,
    fun stored inLog from_ before => List.count_eq_one_of_mem ?_ ?_⟩
  · rw [apiDump, if_neg (by omega)]
    exact done fuel more
  · obtain ⟨from_, inside, moment, -, inLog⟩ := paged.sound down after member
    refine ⟨?_, of_decide_eq_true inside, moment, inLog⟩
    exact (Prod.Lex.toLex_le_toLex.mp from_).elim le_of_lt fun both => both.1.le
  · exact sorted.imp fun less same => absurd (congrArg Stored.position same) less.ne
  · refine paged.complete down after logGrows inLog ?_ (decide_eq_true before)
    apply Prod.Lex.toLex_le_toLex.mpr
    rcases Nat.lt_or_eq_of_le from_ with later | same
    · exact .inl later
    · exact .inr ⟨same, Nat.zero_le _⟩

/-- The sample is stored again, under another id, after the first batch of a dump. -/
theorem dump_exact_sample : ∃ (snapshot : ℕ → Recording) (enough : ℕ) (emitted : List Response)
    (listed : List Stored), (snapshot 0).log = [(.sample, 3)] ∧
    (snapshot 1).log = [(.sample, 4), (.sample, 3)] ∧
    (∀ fuel ≥ enough, apiDump 7 1 (fun moment => (snapshot moment).db) fuel = some (.ok emitted)) ∧
    List.Forall₂ Holds emitted listed ∧ listed.count (.sample, 3) = 1 := by
  have stored : ((recording.run Machine.anyStep recording.start [(.sample, 3)]).map fun state =>
      decide (state.log = [(.sample, 3)] ∧ ((recording.step state (.sample, 4)).map fun next =>
        decide (next.log = [(.sample, 4), (.sample, 3)])) = some true)) = some true := by
    decide +kernel
  obtain ⟨first, reached, both⟩ := Machine.reaches_of_run stored
  obtain ⟨firstLog, stepped⟩ := of_decide_eq_true both
  obtain ⟨second, step, secondLog⟩ := Option.map_eq_some_iff.mp stepped
  have secondLog := of_decide_eq_true secondLog
  let snapshot : ℕ → Recording := fun moment => if moment = 0 then first else second
  have grows (moment : ℕ) :
      recording.Leads Machine.anyStep (snapshot moment) (snapshot (moment + 1)) := by
    cases moment with
    | zero => exact Machine.Leads.single trivial step
    | succ moment => exact .refl second
  have ids (moment : ℕ) (stored : Stored) (inLog : stored ∈ (snapshot moment).log) :
      stored.2 < 2 ^ 64 - 1 := by
    cases moment with
    | zero =>
        rw [show snapshot 0 = first from rfl, firstLog] at inLog
        rw [List.mem_singleton.mp inLog]
        decide
    | succ moment =>
        rw [show snapshot (moment + 1) = second from rfl, secondLog] at inLog
        rcases List.mem_pair.mp inLog with rfl | rfl <;> decide
  obtain ⟨enough, emitted, listed, done, holds, -, -, once⟩ := @dump_exact snapshot
    reached grows ids 7 1 (by decide) (by decide)
  refine ⟨snapshot, enough, emitted, listed, firstLog, secondLog, done, holds, once _ ?_ ?_ ?_⟩
  · rw [show (snapshot 0).log = _ from firstLog]
    exact List.mem_singleton_self _
  · decide
  · decide

end HashArchive.Api
