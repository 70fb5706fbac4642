import HashArchive.Import.FromDump

/-!
# Dumps that are cut off

A connection to `api_dump` can fail at any point. Then `getNext` of `import-from-dump-api.js`
asks for another dump, which starts at the latest time that was read. `Interrupted` is a series
of such attempts, each with what it has read of its dump. The archive that is read goes on
storing responses all the while.

`interrupted_reads` says that no attempt skips a response that was stored when the first one
began, between the time asked for and `end`.
-/

set_option autoImplicit false

namespace HashArchive.Import

open Api Db Hash Json Queue Url Yajl

/-- `end`. -/
def importEnd : ℕ := 1000000000000

/-- `start = Math.max(start, val.timestamp)`, for the responses that were read. -/
def advance (start : ℕ) (read : List Response) : ℕ :=
  read.foldl (fun start res => max start res.time) start

/-- What `/api/dump/` gives for everything from a time on, at a moment and those after it. -/
def Dumps (snapshot : ℕ → Recording) (moment start : ℕ) (emitted : List Response) : Prop :=
  ∃ enough, ∀ fuel ≥ enough, apiDump start (importEnd - start)
    (fun later => (snapshot (moment + later)).db) fuel = some (.ok emitted)

/-- **Attempts of `getNext`** that end with an error. Each reads the beginning of a dump, and
the next one asks for the time that was reached. -/
inductive Interrupted (snapshot : ℕ → Recording) : ℕ → List (List Response) → ℕ → Prop where
  | done (start : ℕ) : Interrupted snapshot start [] start
  | again {moment start last delivered : ℕ} {emitted : List Response}
      {rest : List (List Response)} (dumps : Dumps snapshot moment start emitted)
      (others : Interrupted snapshot (advance start (emitted.take delivered)) rest last) :
      Interrupted snapshot start (emitted.take delivered :: rest) last

theorem le_advance (start : ℕ) (read : List Response) : start ≤ advance start read := by
  induction read generalizing start with
  | nil => exact Nat.le_refl _
  | cons res read ih => exact le_trans (le_max_left _ _) (ih _)

theorem time_le_advance (start : ℕ) {read : List Response} {res : Response}
    (member : res ∈ read) : res.time ≤ advance start read := by
  induction read generalizing start with
  | nil => cases member
  | cons first read ih =>
      rcases List.mem_cons.mp member with rfl | later
      · exact le_trans (le_max_right start res.time) (le_advance _ read)
      · exact ih (max start first.time) later

/-- The time that is reached is the latest that was read. -/
theorem exists_of_lt_advance {start time : ℕ} {read : List Response}
    (before : time < advance start read) : time < start ∨ ∃ res ∈ read, time < res.time := by
  induction read generalizing start with
  | nil => exact .inl before
  | cons res read ih =>
      rcases ih before with earlier | ⟨other, member, later⟩
      · exact (lt_max_iff.mp earlier).imp id fun later => ⟨res, List.mem_cons_self, later⟩
      · exact .inr ⟨other, List.mem_cons_of_mem _ member, later⟩

theorem advance_le {start bound : ℕ} {read : List Response} (from_ : start ≤ bound)
    (all : ∀ res ∈ read, res.time ≤ bound) : advance start read ≤ bound := by
  by_contra past
  rcases exists_of_lt_advance (not_le.mp past) with earlier | ⟨res, member, later⟩
  · exact absurd from_ (not_le.mpr earlier)
  · exact absurd (all res member) (not_le.mpr later)

/-- A response that is held has a slot that holds it. -/
theorem exists_holds {filled : List Response} {listed : List Stored}
    (holds : List.Forall₂ Holds filled listed) :
    (∀ res ∈ filled, ∃ stored ∈ listed, Holds res stored) ∧
      ∀ stored ∈ listed, ∃ res ∈ filled, Holds res stored := by
  induction holds with
  | nil => exact ⟨nofun, nofun⟩
  | @cons slot stored filled listed here _ ih =>
      constructor
      · refine List.forall_mem_cons.mpr ⟨⟨stored, List.mem_cons_self, here⟩, fun res member => ?_⟩
        obtain ⟨other, inListed, held⟩ := ih.1 res member
        exact ⟨other, List.mem_cons_of_mem _ inListed, held⟩
      · refine List.forall_mem_cons.mpr ⟨⟨slot, List.mem_cons_self, here⟩, fun stored member => ?_⟩
        obtain ⟨res, inFilled, held⟩ := ih.2 stored member
        exact ⟨res, List.mem_cons_of_mem _ inFilled, held⟩

/-- What is read of a dump has every response that is earlier than one of it. -/
theorem exists_mem_take {emitted : List Response} {listed : List Stored}
    (holds : List.Forall₂ Holds emitted listed)
    (sorted : listed.Pairwise fun first second => first.position < second.position)
    {stored : Stored} (member : stored ∈ listed) {delivered : ℕ} {res : Response}
    (read : res ∈ emitted.take delivered) (earlier : stored.1.time < res.time) :
    ∃ other ∈ emitted.take delivered, Holds other stored := by
  have both := exists_holds (List.forall₂_take delivered holds)
  obtain ⟨last, inTake, held⟩ := both.1 res read
  refine both.2 stored ?_
  rw [← List.take_append_drop delivered listed] at member sorted
  refine (List.mem_append.mp member).resolve_right fun inDrop => ?_
  have before := (List.pairwise_append.mp sorted).2.2 last inTake stored inDrop
  rw [held.time] at earlier
  rcases Stored.position_lt_iff.mp before with less | ⟨same, -⟩
  · exact absurd less (not_lt.mpr earlier.le)
  · exact absurd same earlier.ne'

section Interruptions

variable {snapshot : ℕ → Recording} (began : recording.Reaches Machine.anyStep (snapshot 0))
  (grows : ∀ moment, recording.Leads Machine.anyStep (snapshot moment) (snapshot (moment + 1)))
  (ids : ∀ moment, ∀ stored ∈ (snapshot moment).log, stored.2 < 2 ^ 64 - 1)
include began grows ids

/-- What one dump lists of everything from a time on. -/
theorem dumps_listed {moment start : ℕ} {emitted : List Response} (early : start < importEnd)
    (dumps : Dumps snapshot moment start emitted) :
    ∃ listed : List Stored, List.Forall₂ Holds emitted listed ∧
      (listed.Pairwise fun first second => first.position < second.position) ∧
      (∀ stored ∈ listed, start ≤ stored.1.time ∧ stored.1.time < importEnd) ∧
      ∀ stored ∈ (snapshot 0).log, start ≤ stored.1.time → stored.1.time < importEnd →
        stored ∈ listed := by
  have leads (moment : ℕ) : recording.Leads Machine.anyStep (snapshot 0) (snapshot moment) := by
    induction moment with
    | zero => exact .refl _
    | succ moment ih => exact Machine.Leads.trans ih (grows moment)
  have window : start + (importEnd - start) = importEnd := by omega
  obtain ⟨enough, other, listed, done, holds, sorted, sound, complete⟩ :=
    @apiDump_listed (fun later => snapshot (moment + later)) (Machine.Leads.trans began (leads moment))
      (fun later => grows (moment + later)) (fun later => ids (moment + later)) start
      (importEnd - start) (by omega) (by rw [window]; decide)
  obtain ⟨otherEnough, otherDone⟩ := dumps
  cases (done _ (le_max_left enough otherEnough)).symm.trans
    (otherDone _ (le_max_right enough otherEnough))
  rw [window] at sound complete
  refine ⟨listed, holds, sorted, fun stored member => ?_, fun stored inLog from_ before => ?_⟩
  · exact ⟨(sound stored member).1, (sound stored member).2.1⟩
  · exact complete stored ((recorded_of_leads (recorded_of_reaches began) (leads moment)).2.subset
      inLog) from_ before

/-- **No attempt skips a response** that was stored at the beginning, from the time asked for to
`end`, and none reads one that is earlier than what was read. -/
theorem interrupted_reads {start last : ℕ} {attempts : List (List Response)}
    (interrupted : Interrupted snapshot start attempts last) (early : start < importEnd)
    {moment : ℕ} {emitted : List Response} (dumps : Dumps snapshot moment last emitted) :
    (∀ stored ∈ (snapshot 0).log, start ≤ stored.1.time → stored.1.time < importEnd →
      ∃ read ∈ attempts ++ [emitted], ∃ res ∈ read, Holds res stored) ∧
    (∀ read ∈ attempts ++ [emitted], ∀ res ∈ read, start ≤ res.time) ∧
    (attempts ++ [emitted]).Pairwise fun before after =>
      ∀ res ∈ before, ∀ other ∈ after, res.time ≤ other.time := by
  induction interrupted with
  | done start =>
      obtain ⟨listed, holds, -, sound, complete⟩ := dumps_listed began grows ids early dumps
      refine ⟨fun stored inLog from_ before => ?_, ?_, List.pairwise_singleton _ _⟩
      · obtain ⟨res, member, held⟩ := (exists_holds holds).2 stored (complete stored inLog from_ before)
        exact ⟨emitted, List.mem_singleton_self _, res, member, held⟩
      · rintro _ (_ | ⟨_, ⟨⟩⟩) res member
        obtain ⟨stored, inListed, held⟩ := (exists_holds holds).1 res member
        exact held.time ▸ (sound stored inListed).1
  | @again _ start last delivered dumped rest dumpsHere others ih =>
      obtain ⟨listed, holds, sorted, sound, complete⟩ := dumps_listed began grows ids early dumpsHere
      have times : ∀ res ∈ dumped.take delivered, start ≤ res.time ∧ res.time < importEnd := by
        intro res member
        obtain ⟨stored, inListed, held⟩ := (exists_holds holds).1 res (List.mem_of_mem_take member)
        exact held.time ▸ sound stored inListed
      have reached := le_advance start (dumped.take delivered)
      have earlyStill : advance start (dumped.take delivered) < importEnd := by
        have most := @advance_le start (importEnd - 1) (dumped.take delivered) (by omega)
          fun res member => by
            have both := times res member
            omega
        omega
      obtain ⟨readLater, later, ordered⟩ := ih earlyStill dumps
      refine ⟨fun stored inLog from_ before => ?_, ?_, ?_⟩
      · by_cases again : advance start (dumped.take delivered) ≤ stored.1.time
        · obtain ⟨read, member, found⟩ := readLater stored inLog again before
          exact ⟨read, List.mem_cons_of_mem _ member, found⟩
        · obtain ⟨res, read, earlier⟩ := (exists_of_lt_advance (not_le.mp again)).resolve_left
            (not_lt.mpr from_)
          exact ⟨_, List.mem_cons_self, exists_mem_take holds sorted
            (complete stored inLog from_ before) read earlier⟩
      · refine List.forall_mem_cons.mpr ⟨fun res member => (times res member).1, ?_⟩
        exact fun read member res inRead => le_trans reached (later read member res inRead)
      · refine List.pairwise_cons.mpr ⟨fun read member res inHere other inRead => ?_, ordered⟩
        exact le_trans (time_le_advance start inHere) (later read member other inRead)

end Interruptions

/-- The sample, two seconds later. -/
def Response.sampleLater : Response := { Response.sample with time := 9 }

/-- The first connection ends after one response, and the second goes on from its time. -/
theorem interrupted_reads_sample : ∃ (snapshot : ℕ → Recording) (first : Response)
    (emitted : List Response), (snapshot 0).log = [(Response.sampleLater, 4), (.sample, 3)] ∧
    Interrupted snapshot 1 [[first]] 7 ∧ Dumps snapshot 0 7 emitted ∧
    ∃ read ∈ [[first], emitted], ∃ res ∈ read, Holds res (Response.sampleLater, 4) := by
  have stored : ((recording.run Machine.anyStep recording.start
      [(.sample, 3), (Response.sampleLater, 4)]).map fun state =>
        decide (state.log = [(Response.sampleLater, 4), (.sample, 3)])) = some true := by
    decide +kernel
  obtain ⟨state, reached, logged⟩ := Machine.reaches_of_run stored
  have logged := of_decide_eq_true logged
  let snapshot : ℕ → Recording := fun _ => state
  have both (moment : ℕ) (stored : Stored) : stored ∈ (snapshot moment).log ↔
      stored = (Response.sampleLater, 4) ∨ stored = (.sample, 3) := by
    rw [show (snapshot moment).log = _ from logged]
    exact List.mem_pair
  have ids (moment : ℕ) (stored : Stored) (inLog : stored ∈ (snapshot moment).log) :
      stored.2 < 2 ^ 64 - 1 := by
    rcases (both moment stored).mp inLog with rfl | rfl <;> decide
  obtain ⟨enough, whole, listed, done, holds, sorted, sound, complete⟩ :=
    @apiDump_listed snapshot reached (fun _ => .refl state) ids 1 (importEnd - 1) (by decide)
      (by decide)
  have early : ((.sample, 3) : Stored) ∈ listed :=
    complete _ ((both 0 _).mpr (.inr rfl)) (by decide) (by decide)
  -- The sample comes first: its time is the earlier one.
  obtain ⟨first, others, rfl, time⟩ : ∃ first others, whole = first :: others ∧ first.time = 7 := by
    cases holds with
    | nil => cases early
    | @cons slot stored slots rest here _ =>
        obtain ⟨-, -, moment, inLog⟩ := sound stored List.mem_cons_self
        rcases (both moment stored).mp inLog with rfl | rfl
        · rcases List.mem_cons.mp early with same | later
          · exact absurd (congrArg Prod.snd same) (by decide)
          · have before := (List.pairwise_cons.mp sorted).1 _ later
            exact absurd (Stored.position_lt_iff.mp before) (by decide)
        · exact ⟨slot, slots, rfl, here.time⟩
  have reachedTime : advance 1 ((first :: others).take 1) = 7 := by
    show max 1 first.time = 7
    rw [time]
    rfl
  have firstDumps : Dumps snapshot 0 1 (first :: others) := ⟨enough, done⟩
  have interrupted : Interrupted snapshot 1 [(first :: others).take 1] 7 :=
    .again firstDumps (reachedTime ▸ .done _)
  obtain ⟨later, emitted, -, again, -⟩ := @apiDump_listed snapshot reached (fun _ => .refl state) ids
    7 (importEnd - 7) (by decide) (by decide)
  have dumps : Dumps snapshot 0 7 emitted := ⟨later, again⟩
  have reads := (interrupted_reads reached (fun _ => .refl state) ids interrupted (by decide) dumps).1
  exact ⟨snapshot, first, emitted, logged, interrupted, dumps,
    reads _ ((both 0 _).mpr (.inl rfl)) (by decide) (by decide)⟩

end HashArchive.Import
