import HashArchive.Import.Faults

/-!
# A record that cannot be imported

What a record that cannot be imported costs depends on where its fault is found. A record
that is cut off ends the reading of its batch, and the records before it are stored
(`Front.record` is `none`). A record that is read and then refused ends the transaction of
its batch, and a digest that is too long for its algorithm ends the process; the records
of the same batch that come before are then lost (`kept`).
-/

set_option autoImplicit false

namespace HashArchive.Import

open Db Hash Queue Url

/-- **A record that cannot be imported**: it is cut off, a string or a digest of it is too
long, or its URL has no SURT. -/
def Front.Bad (front : Front) : Prop :=
  front.record = none ∨ front.Oversized ∨ ∃ res rest, front.record = some (res, rest) ∧
    (urlNormalizeSurt res.url uriMax).isOk = false

/-- A record that ends the reading of its batch, and nothing else. -/
def Front.EndsReading (front : Front) : Prop := front.record = none ∧ ¬ front.Oversized

instance (front : Front) : Decidable front.EndsReading := inferInstanceAs (Decidable (_ ∧ _))

/-- How many of the records before a bad one are stored. -/
def kept (bad : Front) (count : ℕ) : ℕ :=
  if bad.EndsReading then count else responseBatchSize * (count / responseBatchSize)

theorem kept_eq_iff {bad : Front} {count : ℕ} :
    kept bad count = count ↔ bad.EndsReading ∨ responseBatchSize ∣ count := by
  unfold kept
  split_ifs with ends
  · exact iff_of_true rfl (.inl ends)
  · rw [or_iff_right ends]
    exact ⟨fun same => ⟨_, same.symm⟩, Nat.mul_div_cancel'⟩

theorem kept_le (bad : Front) (count : ℕ) : kept bad count ≤ count := by
  unfold kept
  split_ifs with ends
  · exact Nat.le_refl _
  · exact Nat.mul_div_le _ _

theorem kept_batch_add (bad : Front) (count : ℕ) :
    kept bad (responseBatchSize + count) = responseBatchSize + kept bad count := by
  unfold kept
  split_ifs with ends
  · rfl
  · rw [Nat.add_div_left _ responseBatchSize_pos, Nat.mul_succ, Nat.add_comm]

/-! ## Records before it -/

section Split

variable {stream : List UInt8} {good others : List Front} {bad : Front}
  (split : fronts stream = good ++ bad :: others)
include split

/-- The records before it are all there, and it is at the front of what follows them. -/
theorem parts_of_split :
    (∀ found ∈ good, ∃ part res rest, found = front part ∧ found.record = some (res, rest)) ∧
      ∃ part, fronts part = bad :: others := by
  induction good generalizing stream with
  | nil => exact ⟨fun _ member => absurd member List.not_mem_nil, stream, split⟩
  | cons first good ih =>
      obtain ⟨here, ⟨-, empty⟩ | ⟨res, rest, whole, after⟩⟩ := fronts_eq_cons split
      · exact absurd empty (List.append_ne_nil_of_right_ne_nil _ (List.cons_ne_nil _ _))
      · obtain ⟨before, part⟩ := ih after
        refine ⟨fun found member => ?_, part⟩
        rcases List.mem_cons.mp member with rfl | later
        · exact ⟨stream, res, rest, here, whole⟩
        · exact before found later

/-- Nothing follows a record that is cut off. -/
theorem others_of_cut (cut : bad.record = none) : others = [] := by
  obtain ⟨-, part, last⟩ := parts_of_split split
  obtain ⟨-, ⟨-, empty⟩ | ⟨res, rest, whole, -⟩⟩ := fronts_eq_cons last
  · exact empty
  · rw [cut] at whole
    cases whole

theorem length_records_of_split {count : ℕ} (within : count ≤ good.length) :
    (records (good.take count)).length = count := by
  have before : count < (fronts stream).length := by
    rw [split, List.length_append, List.length_cons]
    omega
  have whole := length_records_take before
  rwa [split, List.take_append_of_le_length within] at whole

/-- Well-formed records have no digest that is too long. -/
theorem not_oversized_of_split (wellFormed : ∀ res ∈ records good, res.WellFormed) {found : Front}
    (member : found ∈ good) : ¬ found.Oversized := by
  obtain ⟨part, res, rest, rfl, whole⟩ := (parts_of_split split).1 found member
  have inRecords : res ∈ records good :=
    List.mem_filterMap.mpr ⟨front part, member, by rw [whole]; rfl⟩
  rw [oversized_iff whole, not_exists]
  intro algo
  rcases (wellFormed res inRecords).digests algo with empty | ⟨-, short⟩
  · rw [empty]
    exact Nat.not_lt_zero _
  · exact Nat.not_lt.mpr short

end Split

/-! ## The batch of the bad record -/

section Batch

variable {slots : List Response} {stream : List UInt8} {good others : List Front} {bad : Front}
  {id : ℕ} {db : Database}

/-- A refused response ends the transaction of its batch. -/
theorem importTxn_of_refused {before after : List Response} {res : Response} (agree : TablesAgree db)
    (fits : ∀ other ∈ before ++ res :: after, Fits other)
    (rejected : (urlNormalizeSurt res.url uriMax).isOk = false) :
    ∃ failure, (importTxn (before ++ res :: after) id db).1 = .error failure := by
  obtain ⟨faults, stops, -⟩ := @importTxn_outcome _ id db agree fits
  by_cases sound : Sound db id (before ++ res :: after)
  · have refused : ¬ Reached db id (before ++ res :: after) (before ++ res :: after).length := by
      intro reached
      refine reached before.length ?_ res ?_ (.inl rejected)
      · simp
      · simp
    obtain ⟨rc, failed⟩ := stops sound refused
    exact ⟨_, failed⟩
  · obtain ⟨fault, failed⟩ := faults sound
    exact ⟨_, failed⟩

variable (clean : ∀ slot ∈ slots, Clean slot) (size : slots.length = responseBatchSize)
  (split : fronts stream = good ++ bad :: others)
include clean size split

/-- A record that ends the reading of its batch, and nothing else. -/
theorem connectionLoop_of_endsReading (wellFormed : ∀ res ∈ records good, res.WellFormed)
    (few : good.length < responseBatchSize) (ends : bad.EndsReading)
    {nextId : ℕ} {after : Database} (stored : importTxn (records good) id db = (.ok nextId, after)) :
    connectionLoop slots id stream db = (.ok (), after) := by
  obtain ⟨-, reads⟩ := readResponses_of_fronts clean stream
  have last := others_of_cut split ends.1
  have batch : (fronts stream).take slots.length = good ++ [bad] := by
    rw [split, last, size, List.take_of_length_le]
    rw [List.length_append]
    exact few
  have responses : records (good ++ [bad]) = records good := by
    rw [records_append, records_cons_of_none ends.1]
    exact List.append_nil _
  have count := length_records_of_split split (Nat.le_refl _)
  rw [List.take_length] at count
  rw [batch, responses] at reads
  obtain ⟨rest, read, -⟩ := reads fun found member => by
    rcases List.mem_append.mp member with before | this
    · exact not_oversized_of_split split wellFormed before
    · exact List.mem_singleton.mp this ▸ ends.2
  rw [connectionLoop_of_ok read stored, if_pos (count.trans_lt few)]

/-- Any other bad record costs all of its batch. -/
theorem connectionLoop_of_not_endsReading (agree : TablesAgree db) (few : good.length < responseBatchSize)
    (isBad : bad.Bad) (ends : ¬ bad.EndsReading) : (connectionLoop slots id stream db).2 = db := by
  obtain ⟨fails, reads⟩ := readResponses_of_fronts clean stream
  rw [size] at fails reads
  obtain ⟨more, batch⟩ :
      ∃ more, (fronts stream).take responseBatchSize = good ++ bad :: more := by
    obtain ⟨left, room⟩ := Nat.exists_eq_add_of_lt few
    refine ⟨others.take left, ?_⟩
    rw [split, room, Nat.add_assoc, List.take_length_add_append, List.take_succ_cons]
  by_cases long : ∃ front ∈ (fronts stream).take responseBatchSize, front.Oversized
  · rw [connectionLoop_of_fault (fails long)]
  have short : ∀ front ∈ (fronts stream).take responseBatchSize, ¬ front.Oversized :=
    fun front member tooLong => long ⟨front, member, tooLong⟩
  obtain ⟨rest, read, -⟩ := reads short
  have fits := fits_of_not_oversized (fun _ member => List.mem_of_mem_take member) short
  rw [batch] at short read fits
  have sized := short bad (List.mem_append_right _ (List.mem_cons_self ..))
  rcases isBad with cut | tooLong | ⟨res, left, whole, rejected⟩
  · exact absurd ⟨cut, sized⟩ ends
  · exact absurd tooLong sized
  rw [records_append, records_cons_of_some whole] at read fits
  obtain ⟨failure, failed⟩ := importTxn_of_refused agree fits rejected
  rw [connectionLoop_of_error read (Prod.ext failed rfl)]

/-- A batch of records before the bad one is stored. -/
theorem connectionLoop_of_good (wellFormed : ∀ res ∈ records good, res.WellFormed)
    (many : responseBatchSize ≤ good.length) {nextId : ℕ} {after : Database}
    (stored : importTxn (records (good.take responseBatchSize)) id db = (.ok nextId, after)) :
    ∃ rest, fronts rest = good.drop responseBatchSize ++ bad :: others ∧
      connectionLoop slots id stream db =
        connectionLoop (records (good.take responseBatchSize)) nextId rest after := by
  obtain ⟨-, reads⟩ := readResponses_of_fronts clean stream
  have count := length_records_of_split split many
  rw [size, split, List.take_append_of_le_length many, List.drop_append_of_le_length many] at reads
  obtain ⟨rest, read, next⟩ := reads fun found member =>
    not_oversized_of_split split wellFormed (List.mem_of_mem_take member)
  refine ⟨rest, next count, ?_⟩
  rw [connectionLoop_of_ok read stored, if_neg (Nat.not_lt.mpr count.ge)]

end Batch

/-! ## The whole stream -/

/-- **What is stored of the records before a bad one**: the first of them, as many as
`kept` says. The induction is on the records, one batch at a time. -/
theorem store_of_bad {slots : List Response} (clean : ∀ slot ∈ slots, Clean slot)
    (size : slots.length = responseBatchSize) {stream : List UInt8} {good others : List Front}
    {bad : Front} {id : ℕ} {db : Database} (agree : TablesAgree db)
    (split : fronts stream = good ++ bad :: others)
    (wellFormed : ∀ res ∈ records good, res.WellFormed)
    (fresh : ∀ pending ∈ (records good).zipIdx id,
      Key.timeIDToResponse pending.1.time pending.2 ∉ db) (isBad : bad.Bad) :
    ∃ after, importTxn (records (good.take (kept bad good.length))) id db =
        (.ok (id + kept bad good.length), after) ∧
      (connectionLoop slots id stream db).2 = after := by
  induction count : good.length using Nat.strong_induction_on
    generalizing slots stream good id db with
  | _ count ih =>
  subst count
  rcases Nat.lt_or_ge good.length responseBatchSize with few | many
  · have whole := length_records_of_split split (Nat.le_refl _)
    rw [List.take_length] at whole
    by_cases ends : bad.EndsReading
    · obtain ⟨after, stored⟩ := importTxn_of_fresh agree wellFormed fresh
      have all : kept bad good.length = good.length := kept_eq_iff.mpr (.inl ends)
      rw [whole] at stored
      rw [all, List.take_length,
        connectionLoop_of_endsReading clean size split wellFormed few ends stored]
      exact ⟨after, stored, rfl⟩
    · have none : kept bad good.length = 0 := by
        rw [kept, if_neg ends, Nat.div_eq_of_lt few, Nat.mul_zero]
      rw [none, connectionLoop_of_not_endsReading clean size split agree few isBad ends]
      exact ⟨db, rfl, rfl⟩
  · have parts : records (good.take responseBatchSize) ++ records (good.drop responseBatchSize) =
        records good := by
      rw [← records_append, List.take_append_drop]
    have full := length_records_of_split split many
    have length : good.length = responseBatchSize + (good.drop responseBatchSize).length := by
      rw [List.length_drop, Nat.add_sub_cancel' many]
    have positive := responseBatchSize_pos
    rw [← parts, List.forall_mem_append] at wellFormed
    rw [← parts, List.zipIdx_append, List.forall_mem_append, full] at fresh
    obtain ⟨between, stored⟩ := importTxn_of_fresh agree wellFormed.1 fresh.1
    have all := (importTxn_eq_ok stored).2
    have same := sameFrom_of_addedAll all
    rw [full] at stored same
    obtain ⟨rest, splitRest, loop⟩ := connectionLoop_of_good clean size split
      (parts ▸ List.forall_mem_append.mpr wellFormed) many stored
    have among : ∀ front ∈ good.take responseBatchSize, front ∈ fronts stream := by
      intro front member
      rw [split]
      exact List.mem_append_left _ (List.mem_of_mem_take member)
    have stillFresh : ∀ pending ∈ (records (good.drop responseBatchSize)).zipIdx
        (id + responseBatchSize), Key.timeIDToResponse pending.1.time pending.2 ∉ between := by
      intro pending member
      rw [same _ _ (List.le_snd_of_mem_zipIdx member)]
      exact fresh.2 pending member
    obtain ⟨after, storedLater, left⟩ := ih _ (by omega) (clean_of_mem_records among) full
      (all.tablesAgree agree) splitRest wellFormed.2 stillFresh rfl
    refine ⟨after, ?_, by rw [loop, left]⟩
    rw [length, kept_batch_add, List.take_add, records_append, importTxn_append,
      Txn.bind_of_ok stored, storedLater, Nat.add_assoc]

/-- **A bad record costs only itself and what follows** exactly when it ends the reading of
its batch, or is the first of its batch. -/
theorem bad_record_iff {stream : List UInt8} {good others : List Front} {bad : Front}
    {db : Database} (agree : TablesAgree db) (split : fronts stream = good ++ bad :: others)
    (wellFormed : ∀ res ∈ records good, res.WellFormed)
    (fresh : ∀ pending ∈ (records good).zipIdx,
      Key.timeIDToResponse pending.1.time pending.2 ∉ db) (isBad : bad.Bad) :
    (∃ after, importTxn (records good) 0 db = (.ok good.length, after) ∧
      (connection stream db).2 = after) ↔
    bad.EndsReading ∨ responseBatchSize ∣ good.length := by
  obtain ⟨after, stored, left⟩ :=
    store_of_bad clean_replicate List.length_replicate agree split wellFormed fresh isBad
  rw [Nat.zero_add] at stored
  rw [← kept_eq_iff]
  constructor
  · rintro ⟨whole, storedAll, same⟩
    by_contra lost
    have before : kept bad good.length < good.length := (kept_le _ _).lt_of_ne lost
    have count := length_records_of_split split (Nat.le_refl _)
    rw [List.take_length] at count
    obtain ⟨res, found⟩ : ∃ res, (records good)[kept bad good.length]? = some res :=
      ⟨_, List.getElem?_eq_getElem (before.trans_eq count.symm)⟩
    -- The first record that is not stored is in the store that should have been left.
    obtain ⟨val, -, held⟩ := (importTxn_eq_ok storedAll).2.present
      (List.mk_mem_zipIdx_iff_getElem?.mpr found)
    have there : Key.timeIDToResponse res.time (kept bad good.length) ∈ after := by
      rw [show after = whole from left.symm.trans same]
      exact Finmap.mem_iff.mpr ⟨val, held⟩
    rw [(importTxn_eq_ok stored).2.response_iff] at there
    rcases there with ⟨pending, member, key⟩ | already
    · have earlier := List.snd_lt_add_of_mem_zipIdx member
      rw [length_records_of_split split before.le] at earlier
      have position : pending.2 = kept bad good.length := congrArg Prod.snd key
      omega
    · exact fresh _ (List.mk_mem_zipIdx_iff_getElem?.mpr found) already
  · intro all
    rw [all, List.take_length] at stored
    exact ⟨after, stored, left⟩

/-- A response without a URL. -/
def noUrl : JsResponse := { oneDigest 200 [] with url := [] }

/-- A response, one that has no SURT, and the end of the stream. -/
theorem fronts_with_noUrl : fronts (stream [oneDigest 200 [], noUrl]) =
    [front (stream [oneDigest 200 [], noUrl])] ++ front (stream [noUrl]) :: fronts [] := by
  have first : (front (stream [oneDigest 200 [], noUrl])).record.map Prod.snd =
      some (stream [noUrl]) := by
    decide +kernel
  have second : (front (stream [noUrl])).record.map Prod.snd = some [] := by decide +kernel
  obtain ⟨⟨res, _⟩, whole, rfl⟩ := Option.map_eq_some_iff.mp first
  obtain ⟨⟨other, _⟩, wholeOther, rfl⟩ := Option.map_eq_some_iff.mp second
  rw [fronts_of_some whole, fronts_of_some wholeOther]
  rfl

theorem bad_noUrl : (front (stream [noUrl])).Bad := by
  have rejected : (front (stream [noUrl])).record.map
      (fun record => (urlNormalizeSurt record.1.url uriMax).isOk) = some false := by
    decide +kernel
  obtain ⟨⟨res, rest⟩, whole, isOk⟩ := Option.map_eq_some_iff.mp rejected
  exact .inr (.inr ⟨res, rest, whole, isOk⟩)

theorem stored_before_noUrl :
    ((importTxn (records [front (stream [oneDigest 200 [], noUrl])]) 0 ∅).2.lookup
      (.timeIDToResponse 1 0)).isSome = true := by
  decide +kernel

theorem bad_record_sample :
    (∃ after, importTxn (records [front (stream [oneDigest 200 [], noUrl])]) 0 ∅ = (.ok 1, after) ∧
      (connection (stream [oneDigest 200 [], noUrl]) ∅).2 = after) ↔
    (front (stream [noUrl])).EndsReading ∨ responseBatchSize ∣ 1 :=
  bad_record_iff tablesAgree_empty fronts_with_noUrl (by decide +kernel)
    (fun _ _ => Finmap.notMem_empty) bad_noUrl

/-- **A response without a SURT costs the one before it**, which is in the same batch. -/
theorem bad_url_costs_batch :
    fronts (stream [oneDigest 200 [], noUrl]) =
      [front (stream [oneDigest 200 [], noUrl])] ++ front (stream [noUrl]) :: fronts [] ∧
    (∀ res ∈ records [front (stream [oneDigest 200 [], noUrl])], res.WellFormed) ∧
    (front (stream [noUrl])).Bad ∧
    ¬ ∃ after, importTxn (records [front (stream [oneDigest 200 [], noUrl])]) 0 ∅ =
        (.ok 1, after) ∧
      (connection (stream [oneDigest 200 [], noUrl]) ∅).2 = after := by
  refine ⟨fronts_with_noUrl, by decide +kernel, bad_noUrl, ?_⟩
  rintro ⟨after, stored, left⟩
  have failed : connection (stream [oneDigest 200 [], noUrl]) ∅ =
      (.error (.code .urlEparse), ∅) := connection_of_firstBatch (by decide +kernel)
  have there := stored_before_noUrl
  have same : after = (connection (stream [oneDigest 200 [], noUrl]) ∅).2 := left.symm
  rw [failed] at same
  rw [stored, same, Finmap.lookup_empty] at there
  cases there

end HashArchive.Import
