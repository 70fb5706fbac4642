import HashArchive.Import.Fronts

/-!
# Assertions that a client can trip

What a client sends is checked late. `read_responses` takes a digest of up to 64 bytes and
asserts that it is no longer than those of its algorithm; `hx_response_add` asserts that
the sum of a status and 0xffff is not negative, and that a digest has the bytes the index
needs. A client that sends something else ends the process.

A check is made when the connection comes to it: a response that is refused, because its
URL has no SURT or its key is in use, ends the connection before the responses after it
are added and before the next batch is read. `connection_without_fault_iff` says what a
stream must hold for no check to fail.
-/

set_option autoImplicit false

namespace HashArchive.Import

open Db Hash Queue Url

/-! ## One response -/

/-- `hx_response_add` returns an error for the response: its URL has no SURT, or its key is
in use. -/
def Refused (db : Database) (pending : Response × ℕ) : Prop :=
  (urlNormalizeSurt pending.1.url uriMax).isOk = false ∨
    Key.timeIDToResponse pending.1.time pending.2 ∈ db

/-- The sum of the status and 0xffff is an `int` and not negative. -/
def StatusFits (res : Response) : Prop :=
  0 ≤ 0xffff + res.status ∧ 0xffff + res.status ≤ 2 ^ 31 - 1

/-- Every digest that is not empty has the bytes the index needs. -/
def Indexable (res : Response) : Prop :=
  ∀ algo, res.digests algo ≠ [] → hxHashIndexLen ≤ (res.digests algo).length

/-- No digest is longer than those of its algorithm. -/
def Fits (res : Response) : Prop := ∀ algo, (res.digests algo).length ≤ algo.digestLen

/-- The response passes the checks that `hx_response_add` comes to. -/
def Passes (db : Database) (pending : Response × ℕ) : Prop :=
  ((urlNormalizeSurt pending.1.url uriMax).isOk = true → StatusFits pending.1) ∧
    (¬ Refused db pending → Indexable pending.1)

/-- An outcome that ends the process. -/
def Faulty {α : Type} (outcome : Result α × Database) : Prop :=
  ∃ fault, outcome.1 = .error (.fault fault)

theorem wellFormed_of_passes {db : Database} {pending : Response × ℕ} (fits : Fits pending.1)
    (passes : Passes db pending) (accepted : ¬ Refused db pending) : pending.1.WellFormed := by
  have surt : (urlNormalizeSurt pending.1.url uriMax).isOk = true := by
    rw [Refused, not_or, Bool.not_eq_false] at accepted
    exact accepted.1
  refine ⟨surt, passes.1 surt, fun algo => ?_⟩
  by_cases empty : pending.1.digests algo = []
  · exact .inl empty
  · exact .inr ⟨passes.2 accepted algo empty, fits algo⟩

/-- A status that does not fit is not packed. -/
theorem timeIDToResponseValPack_of_not_fits {res : Response} (unfit : ¬ StatusFits res) :
    ∃ fault, timeIDToResponseValPack res = .error (.fault fault) := by
  unfold timeIDToResponseValPack
  by_cases large : 0xffff + res.status > 2 ^ 31 - 1
  · exact ⟨.signedOverflow, if_pos large⟩
  · have negative : ¬ 0xffff + res.status ≥ 0 := fun positive => unfit ⟨positive, not_lt.mp large⟩
    have asserted : assertThat (0xffff + res.status ≥ 0) = .error (.fault .assertion) :=
      if_neg negative
    rw [if_neg large]
    refine ⟨.assertion, ?_⟩
    dsimp only
    rw [asserted]
    rfl

/-- **What a call for a response that fits its slot comes to**: a check that fails, an error
that is returned, or the response in the store. -/
theorem hxResponseAdd_outcome {res : Response} {id : ℕ} {db : Database} (agree : TablesAgree db)
    (fits : Fits res) :
    (¬ Passes db (res, id) → Faulty (hxResponseAdd res id db)) ∧
    (Passes db (res, id) → Refused db (res, id) →
      ∃ rc, (hxResponseAdd res id db).1 = .error (.code rc)) ∧
    (Passes db (res, id) → ¬ Refused db (res, id) →
      ∃ after, hxResponseAdd res id db = (.ok (), after)) := by
  cases normalized : urlNormalizeSurt res.url uriMax with
  | error failure =>
      have noSurt : (urlNormalizeSurt res.url uriMax).isOk = false := by rw [normalized]; rfl
      have refused : Refused db (res, id) := .inl noSurt
      have passes : Passes db (res, id) :=
        ⟨fun isOk => absurd (noSurt.symm.trans isOk) Bool.false_ne_true,
          fun accepted => absurd refused accepted⟩
      have stopped : (hxResponseAdd res id db).1 = .error failure := by
        rw [hxResponseAdd, normalized, Txn.bind_of_error (Txn.call_apply _ _)]
      refine ⟨absurd passes, fun _ _ => ?_, fun _ accepted => absurd refused accepted⟩
      rcases urlNormalizeSurt_error normalized with rfl | rfl
      · exact ⟨_, stopped⟩
      · exact ⟨_, stopped⟩
  | ok surt =>
  have isOk : (urlNormalizeSurt res.url uriMax).isOk = true := by rw [normalized]; rfl
  by_cases status : StatusFits res
  · obtain ⟨fields, packedDigests⟩ := exists_packDigests HashAlgo.all fits
    have packed := timeIDToResponseValPack_eq_ok.mpr ⟨status, fields, packedDigests, rfl⟩
    by_cases taken : Key.timeIDToResponse res.time id ∈ db
    · have refused : Refused db (res, id) := .inr taken
      have passes : Passes db (res, id) := ⟨fun _ => status, fun accepted => absurd refused accepted⟩
      refine ⟨absurd passes, fun _ _ => ⟨.kvsKeyexist, ?_⟩, fun _ accepted => absurd refused accepted⟩
      have put (val : List Field) : Txn.kvsPut (.timeIDToResponse res.time id) val true db =
          (.error (.code .kvsKeyexist), db) := if_pos ⟨rfl, taken⟩
      rw [hxResponseAdd, normalized, Txn.bind_of_ok (Txn.call_apply _ _), packed,
        Txn.bind_of_ok (Txn.call_apply _ _), Txn.bind_of_error (put _)]
    · have accepted : ¬ Refused db (res, id) := by
        rw [Refused, isOk, not_or]
        exact ⟨Bool.false_ne_true.symm, taken⟩
      refine ⟨fun fails => ?_, fun _ refused => absurd refused accepted, fun passes _ =>
        hxResponseAdd_of_fresh agree (wellFormed_of_passes fits passes accepted) taken⟩
      rw [hxResponseAdd_of_fresh_eq agree normalized packed taken]
      rcases hashKeysAdd_of_free (by decide) (agree.keys_free taken surt _).2 with
        ⟨after, done⟩ | ⟨⟨after, fault⟩, -⟩
      · have long := (hashKeysAdd_eq_ok done).1
        exact absurd ⟨fun _ => status, fun _ algo => long algo algo.mem_all⟩ fails
      · exact ⟨.assertion, by rw [fault]⟩
  · obtain ⟨fault, packed⟩ := timeIDToResponseValPack_of_not_fits status
    refine ⟨fun _ => ⟨fault, ?_⟩, fun passes => absurd (passes.1 isOk) status,
      fun passes => absurd (passes.1 isOk) status⟩
    rw [hxResponseAdd, normalized, Txn.bind_of_ok (Txn.call_apply _ _), packed,
      Txn.bind_of_error (Txn.call_apply _ _)]

/-! ## One batch -/

/-- No response before a position is refused. -/
def Reached (db : Database) (id : ℕ) (responses : List Response) (position : ℕ) : Prop :=
  ∀ earlier < position, ∀ res, responses[earlier]? = some res → ¬ Refused db (res, id + earlier)

/-- Every response that is reached passes its checks. -/
def Sound (db : Database) (id : ℕ) (responses : List Response) : Prop :=
  ∀ position res, responses[position]? = some res → Reached db id responses position →
    Passes db (res, id + position)

section Positions

variable {db : Database} {id : ℕ} {first second : List Response}

theorem reached_zero (responses : List Response) : Reached db id responses 0 :=
  fun _ before => absurd before (Nat.not_lt_zero _)

theorem Reached.mono {responses : List Response} {position other : ℕ}
    (reached : Reached db id responses position) (before : other ≤ position) :
    Reached db id responses other :=
  fun earlier lt => reached earlier (lt.trans_le before)

/-- Only the responses before a position matter. -/
theorem reached_append_left {position : ℕ} (within : position ≤ first.length) :
    Reached db id (first ++ second) position ↔ Reached db id first position := by
  apply forall₂_congr
  intro earlier before
  rw [List.getElem?_append_left (before.trans_le within)]

theorem reached_append_right {position : ℕ} :
    Reached db id (first ++ second) (first.length + position) ↔
      Reached db id first first.length ∧ Reached db (id + first.length) second position := by
  constructor
  · intro reached
    refine ⟨(reached_append_left (Nat.le_refl _)).mp (reached.mono (Nat.le_add_right _ _)), ?_⟩
    intro earlier before res found
    have here := reached (first.length + earlier) (Nat.add_lt_add_left before _) res
    rw [List.getElem?_append_right (Nat.le_add_right _ _), Nat.add_sub_cancel_left,
      ← Nat.add_assoc] at here
    exact here found
  · rintro ⟨reachedFirst, reachedSecond⟩ earlier before res found
    rcases Nat.lt_or_ge earlier first.length with inFirst | inSecond
    · rw [List.getElem?_append_left inFirst] at found
      exact reachedFirst earlier inFirst res found
    · obtain ⟨other, rfl⟩ := Nat.exists_eq_add_of_le inSecond
      rw [List.getElem?_append_right inSecond, Nat.add_sub_cancel_left] at found
      rw [← Nat.add_assoc]
      exact reachedSecond other (Nat.lt_of_add_lt_add_left before) res found

/-- The checks of one part after the other. -/
theorem sound_append : Sound db id (first ++ second) ↔
    Sound db id first ∧
      (Reached db id first first.length → Sound db (id + first.length) second) := by
  constructor
  · intro sound
    refine ⟨fun position res found reached => ?_, fun whole position res found reached => ?_⟩
    · obtain ⟨within, -⟩ := List.getElem?_eq_some_iff.mp found
      refine sound position res ?_ ((reached_append_left within.le).mpr reached)
      rwa [List.getElem?_append_left within]
    · rw [Nat.add_assoc]
      refine sound (first.length + position) res ?_ (reached_append_right.mpr ⟨whole, reached⟩)
      rwa [List.getElem?_append_right (Nat.le_add_right _ _), Nat.add_sub_cancel_left]
  · rintro ⟨soundFirst, soundSecond⟩ position res found reached
    rcases Nat.lt_or_ge position first.length with inFirst | inSecond
    · rw [List.getElem?_append_left inFirst] at found
      exact soundFirst position res found ((reached_append_left inFirst.le).mp reached)
    · obtain ⟨other, rfl⟩ := Nat.exists_eq_add_of_le inSecond
      rw [List.getElem?_append_right inSecond, Nat.add_sub_cancel_left] at found
      obtain ⟨whole, later⟩ := reached_append_right.mp reached
      rw [← Nat.add_assoc]
      exact soundSecond whole other res found later

/-- A response, and those after it. -/
theorem reached_cons {res : Response} :
    Reached db id (res :: second) (second.length + 1) ↔
      ¬ Refused db (res, id) ∧ Reached db (id + 1) second second.length := by
  have one : Reached db id [res] 1 ↔ ¬ Refused db (res, id) := by
    simp [Reached]
  rw [Nat.add_comm, ← one]
  exact @reached_append_right db id [res] second second.length

theorem sound_cons {res : Response} : Sound db id (res :: second) ↔
    Passes db (res, id) ∧ (¬ Refused db (res, id) → Sound db (id + 1) second) := by
  have one : Reached db id [res] 1 ↔ ¬ Refused db (res, id) := by
    simp [Reached]
  have here : Sound db id [res] ↔ Passes db (res, id) := by
    refine ⟨fun sound => sound 0 res rfl (reached_zero _), fun passes position other found _ => ?_⟩
    obtain ⟨within, same⟩ := List.getElem?_eq_some_iff.mp found
    obtain rfl := Nat.lt_one_iff.mp within
    exact same ▸ passes
  rw [← one, ← here]
  exact @sound_append db id [res] second

end Positions

/-- Two stores hold the same responses of an id and later ones. -/
def SameFrom (id : ℕ) (db after : Database) : Prop :=
  ∀ time other, id ≤ other →
    (Key.timeIDToResponse time other ∈ after ↔ Key.timeIDToResponse time other ∈ db)

namespace SameFrom

variable {id : ℕ} {db after : Database} (same : SameFrom id db after)
include same

theorem refused_iff (res : Response) (position : ℕ) :
    Refused after (res, id + position) ↔ Refused db (res, id + position) := by
  rw [Refused, Refused, same _ _ (Nat.le_add_right _ _)]

theorem reached_iff (responses : List Response) (position : ℕ) :
    Reached after id responses position ↔ Reached db id responses position := by
  simp only [Reached, same.refused_iff]

theorem sound_iff (responses : List Response) : Sound after id responses ↔ Sound db id responses := by
  simp only [Sound, Passes, same.reached_iff, same.refused_iff]

end SameFrom

theorem sameFrom_of_added {res : Response} {id : ℕ} {db after : Database} {surt : Str}
    {val : List Field} (added : Added res id db after surt val) : SameFrom (id + 1) db after := by
  intro time other later
  rw [added.response_iff]
  apply or_iff_right
  intro same
  omega

theorem sameFrom_of_addedAll {responses : List Response} {id : ℕ} {db after : Database}
    (all : AddedAll responses id db after) : SameFrom (id + responses.length) db after := by
  intro time other later
  rw [all.response_iff]
  apply or_iff_right
  rintro ⟨pending, member, same⟩
  have before := List.snd_lt_add_of_mem_zipIdx member
  have position : pending.2 = other := congrArg Prod.snd same
  omega

/-- **What a transaction of responses that fit their slots comes to**: a check that fails, an
error that is returned, or all of them in the store. -/
theorem importTxn_outcome {responses : List Response} {id : ℕ} {db : Database}
    (agree : TablesAgree db) (fits : ∀ res ∈ responses, Fits res) :
    (¬ Sound db id responses → Faulty (importTxn responses id db)) ∧
    (Sound db id responses → ¬ Reached db id responses responses.length →
      ∃ rc, (importTxn responses id db).1 = .error (.code rc)) ∧
    (Sound db id responses → Reached db id responses responses.length →
      ∃ after, importTxn responses id db = (.ok (id + responses.length), after)) := by
  induction responses generalizing id db with
  | nil =>
      have sound : Sound db id [] := fun _ _ found => nomatch found
      exact ⟨absurd sound, fun _ refused => absurd (reached_zero _) refused, fun _ _ => ⟨db, rfl⟩⟩
  | cons res responses ih =>
      obtain ⟨fitsHere, fitsLater⟩ := List.forall_mem_cons.mp fits
      obtain ⟨faults, stops, adds⟩ := @hxResponseAdd_outcome res id db agree fitsHere
      rw [sound_cons, List.length_cons, reached_cons]
      by_cases passes : Passes db (res, id)
      · by_cases refused : Refused db (res, id)
        · obtain ⟨rc, failed⟩ := stops passes refused
          have stopped : (importTxn (res :: responses) id db).1 = .error (.code rc) := by
            have called : hxResponseAdd res id db = (.error (.code rc), _) := Prod.ext failed rfl
            rw [importTxn, Txn.bind_of_error called]
          refine ⟨fun unsound => absurd ⟨passes, fun accepted => absurd refused accepted⟩ unsound,
            fun _ _ => ⟨rc, stopped⟩, fun _ reached => absurd refused reached.1⟩
        · obtain ⟨between, stored⟩ := adds passes refused
          obtain ⟨surt, val, added⟩ := hxResponseAdd_eq_ok stored
          have later := @ih (id + 1) _ (agree.add added) fitsLater
          have same := sameFrom_of_added added
          rw [same.sound_iff, same.reached_iff] at later
          rw [importTxn, Txn.bind_of_ok stored]
          simpa [passes, refused, Nat.add_assoc, Nat.add_comm 1] using later
      · obtain ⟨fault, failed⟩ := faults passes
        have stopped : Faulty (importTxn (res :: responses) id db) := by
          have called : hxResponseAdd res id db = (.error (.fault fault), _) := Prod.ext failed rfl
          refine ⟨fault, ?_⟩
          rw [importTxn, Txn.bind_of_error called]
        exact ⟨fun _ => stopped, fun sound => absurd sound.1 passes,
          fun sound => absurd sound.1 passes⟩

/-! ## A connection -/

/-- **What a stream must hold** for no check to fail: a digest is not too long if its batch is
read, and a response passes its checks if it is reached. -/
def Harmless (db : Database) (id : ℕ) (fronts : List Front) : Prop :=
  (∀ position front, fronts[position]? = some front →
    Reached db id (records fronts) (responseBatchSize * (position / responseBatchSize)) →
      ¬ front.Oversized) ∧
  Sound db id (records fronts)

section Batches

variable {db : Database} {id : ℕ} {first second : List Front}

/-- A batch that is the last one. -/
theorem harmless_of_short (last : first.length ≤ responseBatchSize) :
    Harmless db id first ↔ (∀ front ∈ first, ¬ front.Oversized) ∧ Sound db id (records first) := by
  apply and_congr_left
  intro _
  constructor
  · intro each front member
    obtain ⟨position, found⟩ := List.mem_iff_getElem?.mp member
    obtain ⟨within, -⟩ := List.getElem?_eq_some_iff.mp found
    apply each position front found
    rw [Nat.div_eq_of_lt (within.trans_le last), Nat.mul_zero]
    exact reached_zero _
  · intro each position front found _
    exact each front (List.mem_of_getElem? found)

/-- A batch, and those after it. -/
theorem harmless_append (full : first.length = responseBatchSize)
    (complete : (records first).length = responseBatchSize) :
    Harmless db id (first ++ second) ↔
      (∀ front ∈ first, ¬ front.Oversized) ∧ Sound db id (records first) ∧
        (Reached db id (records first) responseBatchSize →
          Harmless db (id + responseBatchSize) second) := by
  have positive := responseBatchSize_pos
  have later (position : ℕ) : Reached db id (records first ++ records second)
        (responseBatchSize * ((responseBatchSize + position) / responseBatchSize)) ↔
      Reached db id (records first) responseBatchSize ∧
        Reached db (id + responseBatchSize) (records second)
          (responseBatchSize * (position / responseBatchSize)) := by
    rw [Nat.add_div_left _ positive, Nat.mul_succ, Nat.add_comm, ← complete]
    exact reached_append_right
  rw [Harmless, records_append, sound_append, complete]
  constructor
  · rintro ⟨each, soundFirst, soundSecond⟩
    refine ⟨fun front member => ?_, soundFirst, fun whole => ⟨?_, soundSecond whole⟩⟩
    · obtain ⟨position, found⟩ := List.mem_iff_getElem?.mp member
      obtain ⟨within, -⟩ := List.getElem?_eq_some_iff.mp found
      apply each position front
      · rwa [List.getElem?_append_left within]
      · rw [Nat.div_eq_of_lt (within.trans_le full.le), Nat.mul_zero]
        exact reached_zero _
    · intro position front found reached
      refine each (responseBatchSize + position) front ?_ ((later position).mpr ⟨whole, reached⟩)
      rwa [← full, List.getElem?_append_right (Nat.le_add_right _ _), Nat.add_sub_cancel_left]
  · rintro ⟨each, soundFirst, next⟩
    refine ⟨fun position front found reached => ?_, soundFirst, fun whole => (next whole).2⟩
    rcases Nat.lt_or_ge position first.length with inFirst | inSecond
    · rw [List.getElem?_append_left inFirst] at found
      exact each front (List.mem_of_getElem? found)
    · obtain ⟨other, rfl⟩ := Nat.exists_eq_add_of_le inSecond
      rw [List.getElem?_append_right inSecond, Nat.add_sub_cancel_left] at found
      rw [full] at reached
      obtain ⟨whole, reachedLater⟩ := (later other).mp reached
      exact (next whole).1 other front found reachedLater

end Batches

theorem SameFrom.harmless_iff {id : ℕ} {db after : Database} (same : SameFrom id db after)
    (fronts : List Front) : Harmless after id fronts ↔ Harmless db id fronts := by
  rw [Harmless, Harmless, same.sound_iff]
  simp only [same.reached_iff]

/-- Responses that were read fit their slots. -/
theorem fits_of_not_oversized {stream : List UInt8} {found : List Front}
    (among : ∀ front ∈ found, front ∈ fronts stream) (sound : ∀ front ∈ found, ¬ front.Oversized) :
    ∀ res ∈ records found, Fits res := by
  intro res member algo
  obtain ⟨part, rest, inFound, whole⟩ := exists_of_mem_records among member
  exact Nat.not_lt.mp fun long => sound _ inFound ((oversized_iff whole).mpr ⟨algo, long⟩)

theorem clean_of_mem_records {stream : List UInt8} {found : List Front}
    (among : ∀ front ∈ found, front ∈ fronts stream) : ∀ res ∈ records found, Clean res := by
  intro res member
  obtain ⟨part, rest, -, whole⟩ := exists_of_mem_records among member
  exact clean_of_front whole

/-- A batch that cannot be read ends the process. -/
theorem connectionLoop_of_fault {slots : List Response} {id : ℕ} {stream : List UInt8}
    {db : Database} {fault : Fault} (failed : (readResponses slots stream).1 = .error fault) :
    connectionLoop slots id stream db = (.error (.fault fault), db) := by
  rw [connectionLoop]
  split
  · rename_i read
    rw [read] at failed
    cases failed
    rfl
  · rename_i read
    rw [read] at failed
    cases failed

/-- What a stream must hold, a batch at a time. -/
theorem harmless_fronts_iff {id : ℕ} {stream : List UInt8} {db : Database} :
    Harmless db id (fronts stream) ↔
      (∀ front ∈ (fronts stream).take responseBatchSize, ¬ front.Oversized) ∧
      Sound db id (records ((fronts stream).take responseBatchSize)) ∧
      (responseBatchSize < (fronts stream).length →
        Reached db id (records ((fronts stream).take responseBatchSize)) responseBatchSize →
          Harmless db (id + responseBatchSize) ((fronts stream).drop responseBatchSize)) := by
  by_cases more : responseBatchSize < (fronts stream).length
  · have split := @harmless_append db id _ ((fronts stream).drop responseBatchSize)
      (List.length_take_of_le more.le) (length_records_take more)
    rw [List.take_append_drop] at split
    simpa [more] using split
  · have last := Nat.not_lt.mp more
    rw [List.take_of_length_le last, harmless_of_short last]
    simp [more]

/-- **The loop ends without a fault** exactly when the rest of the stream is harmless. The
induction is on the stream, one batch at a time. -/
theorem not_faulty_connectionLoop_iff {slots : List Response} (clean : ∀ slot ∈ slots, Clean slot)
    (size : slots.length = responseBatchSize) {id : ℕ} {stream : List UInt8} {db : Database}
    (agree : TablesAgree db) :
    ¬ Faulty (connectionLoop slots id stream db) ↔ Harmless db id (fronts stream) := by
  induction left : stream.length using Nat.strong_induction_on generalizing slots id stream db with
  | _ left ih =>
  obtain ⟨fails, reads⟩ := readResponses_of_fronts clean stream
  rw [size] at fails reads
  have among : ∀ front ∈ (fronts stream).take responseBatchSize, front ∈ fronts stream :=
    fun _ member => List.mem_of_mem_take member
  rw [harmless_fronts_iff]
  by_cases long : ∃ front ∈ (fronts stream).take responseBatchSize, front.Oversized
  · rw [connectionLoop_of_fault (fails long)]
    refine iff_of_false (fun sound => sound ⟨_, rfl⟩) fun harmless => ?_
    obtain ⟨front, member, tooLong⟩ := long
    exact harmless.1 front member tooLong
  have short : ∀ front ∈ (fronts stream).take responseBatchSize, ¬ front.Oversized :=
    fun front member tooLong => long ⟨front, member, tooLong⟩
  obtain ⟨rest, read, next⟩ := reads short
  obtain ⟨faults, stops, adds⟩ :=
    @importTxn_outcome _ id db agree (fits_of_not_oversized among short)
  by_cases checks : Sound db id (records ((fronts stream).take responseBatchSize))
  swap
  · obtain ⟨fault, failed⟩ := faults checks
    have stopped : importTxn _ id db = (.error (.fault fault), _) := Prod.ext failed rfl
    rw [connectionLoop_of_error read stopped]
    exact iff_of_false (fun sound => sound ⟨_, rfl⟩) fun harmless => checks harmless.2.1
  by_cases reached : Reached db id (records ((fronts stream).take responseBatchSize))
      (records ((fronts stream).take responseBatchSize)).length
  swap
  · obtain ⟨rc, failed⟩ := stops checks reached
    have stopped : importTxn _ id db = (.error (.code rc), _) := Prod.ext failed rfl
    rw [connectionLoop_of_error read stopped]
    refine iff_of_true ?_ ⟨short, checks, fun more whole => ?_⟩
    · rintro ⟨fault, same⟩
      cases same
    · rw [length_records_take more] at reached
      exact absurd whole reached
  obtain ⟨after, stored⟩ := adds checks reached
  rw [connectionLoop_of_ok read stored]
  by_cases more : responseBatchSize < (fronts stream).length
  · have complete := length_records_take more
    have all := (importTxn_eq_ok stored).2
    have shrinks := length_of_readResponses read
    have positive := responseBatchSize_pos
    have same := sameFrom_of_addedAll all
    rw [complete] at reached same shrinks ⊢
    rw [if_neg (Nat.lt_irrefl _), ih _ (by omega) (clean_of_mem_records among) complete
      (all.tablesAgree agree) rfl, next complete, same.harmless_iff]
    exact ⟨fun harmless => ⟨short, checks, fun _ _ => harmless⟩,
      fun harmless => harmless.2.2 more reached⟩
  · have few : (records ((fronts stream).take responseBatchSize)).length < responseBatchSize := by
      rw [List.take_of_length_le (Nat.not_lt.mp more)]
      exact (length_records_lt stream).trans_le (Nat.not_lt.mp more)
    rw [if_pos few]
    refine iff_of_true ?_ ⟨short, checks, fun longer => absurd longer more⟩
    rintro ⟨fault, same⟩
    cases same

/-- **No assertion fails** in a connection exactly when the stream holds nothing that is
checked too late: no digest that is longer than those of its algorithm in a batch that is
read, and in no response that is reached a status whose sum with 0xffff is negative or no
`int`, or a digest that is shorter than the index needs. -/
theorem connection_without_fault_iff {stream : List UInt8} {db : Database}
    (agree : TablesAgree db) :
    (∀ fault, (connection stream db).1 ≠ .error (.fault fault)) ↔
      Harmless db 0 (fronts stream) := by
  rw [← not_faulty_connectionLoop_iff clean_replicate
    List.length_replicate agree, Faulty, not_exists]
  rfl

/-- A response with one digest. -/
def oneDigest (status : ℤ) (digest : List UInt8) : JsResponse where
  time := some 1
  url := "http://a/".toList.map fun c => UInt8.ofNat c.toNat
  status := status
  type := []
  length := none
  digests := fun algo => if algo = .known .sha1 then some digest else none

theorem connection_without_fault_sample :
    (∀ fault, (connection (stream [oneDigest 200 (List.replicate 20 0)]) ∅).1 ≠
      .error (.fault fault)) ↔
    Harmless ∅ 0 (fronts (stream [oneDigest 200 (List.replicate 20 0)])) :=
  connection_without_fault_iff tablesAgree_empty

/-- What a first batch comes to. -/
def firstBatch (stream : List UInt8) : Result ℕ :=
  match (readResponses (List.replicate responseBatchSize Response.blank) stream).1 with
  | .ok responses => (importTxn responses 0 ∅).1
  | .error fault => .error (.fault fault)

theorem connection_of_firstBatch {stream : List UInt8} {failure : Failure}
    (failed : firstBatch stream = .error failure) : connection stream ∅ = (.error failure, ∅) := by
  unfold firstBatch at failed
  rcases read : readResponses (List.replicate responseBatchSize Response.blank) stream with
    ⟨fault | responses, rest⟩
  · rw [read] at failed
    cases failed
    exact connectionLoop_of_fault (congrArg Prod.fst read)
  · rw [read] at failed
    exact connectionLoop_of_error read (Prod.ext failed rfl)

/-- **Three assertions that a client trips**: with a SHA-1 digest of 21 bytes, with one of 7
bytes, and with the greatest status. -/
theorem client_trips_assertions :
    connection (stream [oneDigest 200 (List.replicate 21 0)]) ∅ =
      (.error (.fault .assertion), ∅) ∧
    connection (stream [oneDigest 200 (List.replicate 7 0)]) ∅ =
      (.error (.fault .assertion), ∅) ∧
    connection (stream [oneDigest (2 ^ 31 - 1) []]) ∅ =
      (.error (.fault .signedOverflow), ∅) := by
  refine ⟨connection_of_firstBatch ?_, connection_of_firstBatch ?_, connection_of_firstBatch ?_⟩ <;>
    decide +kernel

end HashArchive.Import
