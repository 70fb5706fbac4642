import HashArchive.Db.Recording
import HashArchive.Import.Reader
import HashArchive.Import.Writer
import HashArchive.Queue.Imports

/-!
# What is written and what is stored

A response that is written by `write_response` is read back by `read_responses`, up to
the first NUL of its strings (`reads_writeResponse`), whatever was in the slot before.
So a connection reads the responses that were sent, 50 at a time, and stores them under
0, 1, 2 and so on; where a batch ends makes no difference (`connection_bytes`).

What is stored is what was sent, unless a string has a NUL or the sum of a status and
0xffff, which `hx_response_add` takes as an `int`, is out of range
(`import_exact_iff`).
-/

set_option autoImplicit false

namespace HashArchive.Import

open Db Hash Queue Url

/-! ## One response -/

/-- **A response that is sent**: its numbers, strings and digests fit the stream and the
slots, its URL has a SURT, and its status is an `int`. -/
structure Record extends JsResponse where
  time_range : ∀ val ∈ time, 0 ≤ val ∧ val < 2 ^ 48
  url_fits : url.length ≤ 1023
  url_accepted : (urlNormalizeSurt (cString (chars url)) uriMax).isOk = true
  status_range : 0 ≤ status + 0xffff ∧ status + 0xffff < 2 ^ 48
  status_int : -2 ^ 31 ≤ status ∧ status < 2 ^ 31
  type_fits : type.length ≤ 255
  length_range : ∀ val ∈ length, 0 ≤ val ∧ val < 2 ^ 48
  digest_fits : ∀ algo, ∀ digest ∈ digests (.known algo),
    hxHashIndexLen ≤ digest.length ∧ digest.length ≤ algo.digestLen
  blake_fits : ∀ algo ∈ [Algo.blake2s, Algo.blake2b], ∀ digest ∈ digests algo,
    digest.length ≤ hashDigestMax

/-- The number that stands for a time or a length; `UINT64_MAX` when it is not known. -/
def number : Option ℤ → ℕ
  | none => 2 ^ 64 - 1
  | some val => val.toNat

theorem length_chars (bytes : List UInt8) : (chars bytes).length = bytes.length :=
  List.length_map _

namespace Record

variable (record : Record)

/-- The digests of the algorithms that are known. -/
def knownDigests (algo : HashAlgo) : List UInt8 := (record.digests (.known algo)).getD []

/-- The response that was sent. -/
def sent : Response where
  time := number record.time
  id := 0
  url := chars record.url
  status := record.status
  type := chars record.type
  length := number record.length
  digests := record.knownDigests
  next := none
  prev := none
  flags := 0
  url_lt := by
    rw [length_chars]
    exact Nat.lt_succ_of_le record.url_fits
  type_lt := by
    rw [length_chars]
    exact Nat.lt_succ_of_le record.type_fits

/-- What is in a slot that the response was read into. -/
def received (slot : Response) : Response := { slot with
  time := number record.time
  url := cString (chars record.url)
  status := record.status
  type := cString (chars record.type)
  length := number record.length
  digests := record.knownDigests
  url_lt := length_cString_chars_lt rfl (Nat.succ_le_succ record.url_fits)
  type_lt := length_cString_chars_lt rfl (Nat.succ_le_succ record.type_fits) }

end Record

/-! ## One field -/

theorem reads_len {bytes : List UInt8} {len : ℕ} (length : bytes.length = len) :
    (readLen len).Reads bytes ⟨bytes, length⟩ := .exactly length

theorem reads_uint16 {val : ℕ} (fits : val < 2 ^ 16) : readUint16.Reads (writeUint16 val) val := by
  have read := (reads_len (length_bigEndianBytes 2 val)).map fun x => bigEndian x
  rwa [bigEndian_bigEndianBytes fits] at read

theorem reads_uint64 {val : Option ℤ} (range : ∀ number ∈ val, 0 ≤ number ∧ number < 2 ^ 48) :
    readUint64.Reads (writeUint64 val) (number val) := by
  cases val with
  | none => exact (@reads_len (List.replicate 8 0xff) 8 rfl).map fun x => bigEndian x
  | some val =>
      obtain ⟨nonnegative, below⟩ := range val rfl
      have fits : val.toNat < 256 ^ 6 := by omega
      have length : (0 :: 0 :: bigEndianBytes 6 val.toNat).length = 8 := by simp
      have read := (reads_len length).map fun x => bigEndian x
      rw [bigEndian_zero_cons, bigEndian_zero_cons, bigEndian_bigEndianBytes fits] at read
      rwa [writeUint64, if_neg (by omega)]

theorem reads_string {str : List UInt8} {max : ℕ} (fits : str.length + 1 ≤ max)
    (short : str.length < 2 ^ 16) : (readString max).Reads (writeString str)
      ⟨cString (chars str), length_cString_chars_lt rfl fits⟩ := by
  refine (reads_uint16 short).bind ?_
  rw [dif_pos fits]
  exact (reads_len rfl).map fun out => (⟨cString (chars out),
    length_cString_chars_lt out.property fits⟩ : { text : Str // text.length < max })

theorem reads_blob {buf : Option (List UInt8)} {max : ℕ} (small : max < 2 ^ 16)
    (fits : ∀ bytes ∈ buf, bytes.length ≤ max) :
    (readBlob max).Reads (writeBlob buf) (buf.getD []) := by
  cases buf with
  | none =>
      rw [writeBlob, ← List.append_nil (writeUint16 0)]
      refine (reads_uint16 (by decide)).bind ?_
      rw [if_pos (Nat.zero_le _)]
      exact (@reads_len [] 0 rfl).map Subtype.val
  | some bytes =>
      have length := fits bytes rfl
      refine (reads_uint16 (by omega)).bind ?_
      rw [if_pos length]
      exact (reads_len rfl).map Subtype.val

/-- The digests of known algorithms are read into their places. -/
theorem reads_digests {digests : Algo → Option (List UInt8)} {algos : List HashAlgo}
    (start : HashAlgo → List UInt8)
    (fits : ∀ algo, ∀ digest ∈ digests (.known algo), digest.length ≤ algo.digestLen) :
    (readDigests start algos).Reads (algos.flatMap fun algo => writeBlob (digests (.known algo)))
      fun algo => if algo ∈ algos then (digests (.known algo)).getD [] else start algo := by
  induction algos generalizing start with
  | nil => simpa [readDigests] using ByteReader.Reads.pure start
  | cons algo algos ih =>
      have short : ∀ bytes ∈ digests (.known algo), bytes.length ≤ hashDigestMax :=
        fun bytes member => (fits algo bytes member).trans algo.digestLen_le
      have length : ((digests (.known algo)).getD []).length ≤ algo.digestLen := by
        cases found : digests (.known algo) with
        | none => exact Nat.zero_le _
        | some digest => exact fits algo digest found
      rw [List.flatMap_cons]
      refine (reads_blob (by decide) short).bind ?_
      rw [if_pos length]
      have same : (fun other => if other ∈ algos then (digests (.known other)).getD []
          else Function.update start algo ((digests (.known algo)).getD []) other) =
          fun other => if other ∈ algo :: algos then (digests (.known other)).getD []
            else start other := by
        funext other
        by_cases later : other ∈ algos
        · simp [later]
        · by_cases this : other = algo <;> simp [later, this]
      exact same ▸ ih _

/-- The digests of other algorithms are read as well. -/
theorem reads_discarded {digests : List (Option (List UInt8))}
    (fits : ∀ digest ∈ digests, ∀ bytes ∈ digest, bytes.length ≤ hashDigestMax) :
    (discardDigests digests.length).Reads (digests.flatMap writeBlob) () := by
  induction digests with
  | nil => exact .pure ()
  | cons digest digests ih =>
      obtain ⟨here, later⟩ := List.forall_mem_cons.mp fits
      exact (reads_blob (by decide) here).bind (ih later)

/-- The status that is read. -/
theorem bmod_status (record : Record) :
    Int.bmod (number (some (record.status + 0xffff)) - 0xffff) (2 ^ 32) = record.status := by
  obtain ⟨nonnegative, -⟩ := record.status_range
  obtain ⟨least, most⟩ := record.status_int
  rw [number, Int.toNat_of_nonneg nonnegative, add_sub_cancel_right]
  exact Int.bmod_eq_of_le (by omega) (by omega)

/-- The digests that are read. -/
theorem digests_eq_known (record : Record) (start : HashAlgo → List UInt8) :
    (fun algo : HashAlgo => if algoMax ≤ algo.index then [] else
      if algo ∈ HashAlgo.all then (record.digests (.known algo)).getD [] else start algo) =
      record.knownDigests := by
  funext algo
  have few : ¬ algoMax ≤ algo.index := by
    have := algo.index_lt
    simp only [HashAlgo.all, List.length_cons, List.length_nil, algoMax] at this ⊢
    omega
  rw [if_neg few, if_pos algo.mem_all, Record.knownDigests]

/-- **A response that was written is read**, into any slot. -/
theorem reads_writeResponse (record : Record) (slot : Response) :
    (readResponse slot).Reads (writeResponse record.toJsResponse) (record.received slot) := by
  have urlShort := record.url_fits
  have typeShort := record.type_fits
  have status : ∀ val ∈ some (record.status + 0xffff), 0 ≤ val ∧ val < 2 ^ 48 := by
    rintro val ⟨⟩
    exact record.status_range
  rw [writeResponse]
  simp only [List.append_assoc]
  refine (reads_uint64 record.time_range).bind ?_
  refine (reads_string (Nat.succ_le_succ urlShort) (by omega)).bind ?_
  refine (reads_uint64 status).bind ?_
  refine (reads_string (Nat.succ_le_succ typeShort) (by omega)).bind ?_
  refine (reads_uint64 record.length_range).bind ?_
  refine (@reads_uint16 algoMax (by decide)).bind ?_
  have known := @reads_digests record.digests HashAlgo.all slot.digests
    fun algo digest member => (record.digest_fits algo digest member).2
  have others := @reads_discarded [record.digests .blake2s, record.digests .blake2b]
    (by simpa using record.blake_fits)
  have split : (algos.flatMap fun algo => writeBlob (record.digests algo)) =
      (HashAlgo.all.flatMap fun algo => writeBlob (record.digests (.known algo))) ++
        ([record.digests .blake2s, record.digests .blake2b].flatMap writeBlob ++ []) := by
    simp [algos, List.flatMap_map]
  rw [split]
  have received : record.received slot = { record.received slot with
      status := Int.bmod (number (some (record.status + 0xffff)) - 0xffff) (2 ^ 32)
      digests := fun algo => if algoMax ≤ algo.index then [] else
        if algo ∈ HashAlgo.all then (record.digests (.known algo)).getD []
        else slot.digests algo } := by
    rw [bmod_status, digests_eq_known]
    rfl
  rw [received]
  apply known.bind
  exact others.bind (.pure _)

/-! ## Batches -/

/-- What is sent for some responses. -/
def bytes (records : List Record) : List UInt8 := stream (records.map Record.toJsResponse)

theorem bytes_cons (record : Record) (records : List Record) :
    bytes (record :: records) = writeResponse record.toJsResponse ++ bytes records := rfl

/-- A slot of an array that was cleared, and into which only responses were read since. -/
structure Clean (slot : Response) : Prop where
  id : slot.id = 0
  next : slot.next = none
  prev : slot.prev = none
  flags : slot.flags = 0

theorem clean_blank : Clean Response.blank := ⟨rfl, rfl, rfl, rfl⟩

/-- The slots of a new array are clean. -/
theorem clean_replicate {count : ℕ} : ∀ slot ∈ List.replicate count Response.blank, Clean slot :=
  fun _ member => List.eq_of_mem_replicate member ▸ clean_blank

namespace Record

/-- The response as it is stored. -/
def stored (record : Record) : Response := record.received Response.blank

theorem clean_stored (record : Record) : Clean record.stored := ⟨rfl, rfl, rfl, rfl⟩

/-- Nothing of an earlier response is left in a slot. -/
theorem received_of_clean (record : Record) {slot : Response} (clean : Clean slot) :
    record.received slot = record.stored := by
  rw [stored, received, received, clean.id, clean.next, clean.prev, clean.flags]
  rfl

end Record

theorem readResponse_nil (slot : Response) : readResponse slot [] = (.error .uvEof, []) := rfl

/-- **A batch** is as many responses as there are slots, or all of them. -/
theorem readResponses_bytes {slots : List Response} (clean : ∀ slot ∈ slots, Clean slot)
    (records : List Record) : readResponses slots (bytes records) =
      (.ok ((records.take slots.length).map Record.stored), bytes (records.drop slots.length)) := by
  induction slots generalizing records with
  | nil => rfl
  | cons slot slots ih =>
      obtain ⟨here, later⟩ := List.forall_mem_cons.mp clean
      cases records with
      | nil =>
          rw [readResponses, show bytes [] = [] from rfl, readResponse_nil]
          rfl
      | cons record records =>
          have read := reads_writeResponse record slot (bytes records)
          rw [record.received_of_clean here] at read
          rw [bytes_cons, readResponses, read]
          simp only [ih later]
          rfl

/-! ## The whole stream -/

/-- The transaction of two batches in one. -/
theorem importTxn_append (first second : List Response) (id : ℕ) (db : Database) :
    importTxn (first ++ second) id db = (importTxn first id >>= importTxn second) db := by
  induction first generalizing id db with
  | nil => rfl
  | cons res first ih =>
      rcases outcome : hxResponseAdd res id db with ⟨failure | done, between⟩
      · have failed : importTxn (res :: first) id db = (.error failure, between) :=
          Txn.bind_of_error outcome
        rw [List.cons_append, importTxn, Txn.bind_of_error outcome, Txn.bind_of_error failed]
      · have rest : importTxn (res :: first) id db = importTxn first (id + 1) between :=
          Txn.bind_of_ok outcome
        rw [List.cons_append, importTxn, Txn.bind_of_ok outcome, ih]
        rcases more : importTxn first (id + 1) between with ⟨failure | nextId, last⟩
        · rw [Txn.bind_of_error more, Txn.bind_of_error (rest.trans more)]
        · rw [Txn.bind_of_ok more, Txn.bind_of_ok (rest.trans more)]

/-- **Where a batch ends makes no difference**: a connection succeeds when one transaction
of all the responses does, and leaves the same store; and it fails as that one does. -/
theorem connectionLoop_bytes {slots : List Response} (clean : ∀ slot ∈ slots, Clean slot)
    (size : slots.length = responseBatchSize) (records : List Record) (id : ℕ) (db : Database) :
    (∀ {nextId after}, importTxn (records.map Record.stored) id db = (.ok nextId, after) →
      connectionLoop slots id (bytes records) db = (.ok (), after)) ∧
    ∀ {failure copy}, importTxn (records.map Record.stored) id db = (.error failure, copy) →
      (connectionLoop slots id (bytes records) db).1 = .error failure := by
  induction count : records.length using Nat.strong_induction_on
    generalizing records slots id db with
  | _ count ih =>
      have read := readResponses_bytes clean records
      rw [size] at read
      have whole := importTxn_append ((records.take responseBatchSize).map Record.stored)
        ((records.drop responseBatchSize).map Record.stored) id db
      rw [← List.map_append, List.take_append_drop] at whole
      rcases batch : importTxn ((records.take responseBatchSize).map Record.stored) id db with
        ⟨failure | nextId, between⟩
      · rw [whole, Txn.bind_of_error batch, connectionLoop_of_error read batch]
        refine ⟨nofun, fun same => ?_⟩
        cases same
        rfl
      · rw [whole, Txn.bind_of_ok batch, connectionLoop_of_ok read batch, List.length_map]
        split_ifs with few
        · have last : records.drop responseBatchSize = [] := by
            rw [List.length_take] at few
            exact List.drop_eq_nil_of_le (by omega)
          rw [last]
          refine ⟨fun same => ?_, nofun⟩
          cases same
          rfl
        · have full : (records.take responseBatchSize).length = responseBatchSize := by
            have most := List.length_take_le responseBatchSize records
            omega
          refine ih _ ?_ ?_ (by rw [List.length_map, full]) _ _ _ rfl
          · have positive := responseBatchSize_pos
            rw [List.length_take] at full
            rw [List.length_drop]
            omega
          · intro slot member
            obtain ⟨record, -, rfl⟩ := List.mem_map.mp member
            exact record.clean_stored

/-- **A connection stores the responses that were sent** in one piece, or fails as storing
them in one piece does. -/
theorem connection_bytes (records : List Record) (db : Database) :
    (∀ {nextId after}, importTxn (records.map Record.stored) 0 db = (.ok nextId, after) →
      connection (bytes records) db = (.ok (), after)) ∧
    ∀ {failure copy}, importTxn (records.map Record.stored) 0 db = (.error failure, copy) →
      (connection (bytes records) db).1 = .error failure :=
  connectionLoop_bytes clean_replicate
    List.length_replicate records 0 db

/-! ## What is stored -/

/-- **What an import leaves in the store**: every response is read under its time and its
position as it was sent, and no other response has changed. -/
structure Imported (responses : List Response) (db after : Database) : Prop where
  stored : ∀ pending ∈ responses.zipIdx, ∀ slot, ∃ res,
    getResponse slot pending.1.time pending.2 after = (.ok res, after) ∧ Holds res pending
  kept : ∀ {time id}, (∀ pending ∈ responses.zipIdx, Queue.responseKey pending ≠ (time, id)) →
    after.lookup (.timeIDToResponse time id) = db.lookup (.timeIDToResponse time id)
  agree : TablesAgree after

/-- Responses that are added change no other. -/
theorem lookup_of_addedAll {responses : List Response} {id : ℕ} {db after : Database}
    (all : AddedAll responses id db after) {time other : ℕ}
    (free : ∀ pending ∈ responses.zipIdx id, Queue.responseKey pending ≠ (time, other)) :
    after.lookup (.timeIDToResponse time other) = db.lookup (.timeIDToResponse time other) := by
  induction all with
  | nil => rfl
  | cons added rest ih =>
      rw [List.zipIdx_cons, List.forall_mem_cons] at free
      refine (ih free.2).trans (added.elsewhere ?_).1
      rintro ⟨rfl, rfl⟩
      exact free.1 rfl

/-- **A transaction that succeeds** leaves what it should. -/
theorem imported_of_importTxn {responses : List Response} {nextId : ℕ} {db after : Database}
    (agree : TablesAgree db) (done : importTxn responses 0 db = (.ok nextId, after)) :
    Imported responses db after := by
  obtain ⟨-, all⟩ := importTxn_eq_ok done
  refine ⟨fun pending member slot => ?_, lookup_of_addedAll all, all.tablesAgree agree⟩
  obtain ⟨res, read, holds, -⟩ := getResponse_of_present (all.present member) slot
  exact ⟨res, read, holds⟩

/-! ## Exactly what was sent -/

/-- A response that arrives as it was sent: the sum of its status and 0xffff is an `int`,
and its strings have no NUL. -/
structure Record.Storable (record : Record) : Prop where
  status : record.status ≤ 2 ^ 31 - 1 - 0xffff
  url : 0 ∉ record.url
  type : 0 ∉ record.type

theorem cString_chars_iff {bytes : List UInt8} :
    cString (chars bytes) = chars bytes ↔ 0 ∉ bytes := by
  have zero (byte : UInt8) : Char.ofNat byte.toNat = nul ↔ byte = 0 := by
    refine ⟨fun same => ?_, fun same => same ▸ rfl⟩
    have valid : byte.toNat.isValidChar := .inl (by have := byte.toNat_lt; omega)
    have toNat : (Char.ofNat byte.toNat).toNat = byte.toNat := by
      rw [Char.ofNat, dif_pos valid]
      rfl
    rw [same] at toNat
    exact UInt8.toNat_inj.mp toNat.symm
  rw [cString, List.takeWhile_eq_self_iff, chars, List.forall_mem_map]
  simp only [bne_iff_ne, ne_eq, zero]
  exact ⟨fun each member => each 0 member rfl, fun absent byte member same => absent (same ▸ member)⟩

/-- A response arrives as it was sent when no string of it is cut off. -/
theorem Record.stored_eq_sent_iff {record : Record} :
    record.stored = record.sent ↔ 0 ∉ record.url ∧ 0 ∉ record.type := by
  rw [← cString_chars_iff, ← cString_chars_iff]
  constructor
  · intro same
    exact ⟨congrArg Response.url same, congrArg Response.type same⟩
  · rintro ⟨url, type⟩
    simp only [stored, received, sent, url, type]
    rfl

/-- A response that can be stored passes the checks of `hx_response_add`. -/
theorem Record.Storable.wellFormed {record : Record} (storable : record.Storable) :
    record.stored.WellFormed where
  surt := record.url_accepted
  status := by
    have least := record.status_range.1
    have most := storable.status
    show 0 ≤ 0xffff + record.status ∧ 0xffff + record.status ≤ 2 ^ 31 - 1
    omega
  digests := by
    intro algo
    have digests : record.stored.digests algo = (record.digests (.known algo)).getD [] := rfl
    rw [digests]
    cases found : record.digests (.known algo) with
    | none => exact .inl rfl
    | some digest => exact .inr (record.digest_fits algo digest found)

/-- Responses that were stored as they were sent can be stored. -/
theorem storable_of_imported {records : List Record} {nextId : ℕ} {db after : Database}
    (whole : importTxn (records.map Record.stored) 0 db = (.ok nextId, after))
    (imported : Imported (records.map Record.sent) db after) :
    ∀ record ∈ records, record.Storable := by
  intro record member
  obtain ⟨index, found⟩ := List.mem_iff_getElem?.mp member
  have inSent : (record.sent, index) ∈ (records.map Record.sent).zipIdx := by
    rw [List.mk_mem_zipIdx_iff_getElem?, List.getElem?_map, found]
    rfl
  have inStored : (record.stored, index) ∈ (records.map Record.stored).zipIdx := by
    rw [List.mk_mem_zipIdx_iff_getElem?, List.getElem?_map, found]
    rfl
  have present := (importTxn_eq_ok whole).2.present inStored
  -- Both are read under the same time and position, so they have the same strings.
  obtain ⟨res, read, asSent⟩ := imported.stored _ inSent Response.blank
  obtain ⟨_, again, asStored, -⟩ := getResponse_of_present present Response.blank
  cases read.symm.trans again
  have url : cString (chars record.url) = chars record.url := asStored.url.symm.trans asSent.url
  have type : cString (chars record.type) = chars record.type :=
    asStored.type.symm.trans asSent.type
  refine ⟨?_, cString_chars_iff.mp url, cString_chars_iff.mp type⟩
  obtain ⟨val, packed, -⟩ := present
  have most : 0xffff + record.status ≤ 2 ^ 31 - 1 :=
    (timeIDToResponseValPack_eq_ok.mp packed).1.2
  omega

/-- **The import writer and reader agree** exactly when the sum of every status and 0xffff is
an `int` and no string has a NUL. -/
theorem import_exact_iff {records : List Record} {db : Database} (agree : TablesAgree db)
    (fresh : ∀ pending ∈ (records.map Record.sent).zipIdx,
      Key.timeIDToResponse pending.1.time pending.2 ∉ db) :
    (∃ after, connection (bytes records) db = (.ok (), after) ∧
      Imported (records.map Record.sent) db after) ↔ ∀ record ∈ records, record.Storable := by
  obtain ⟨succeeds, fails⟩ := connection_bytes records db
  constructor
  · rintro ⟨after, ended, imported⟩
    rcases whole : importTxn (records.map Record.stored) 0 db with ⟨failure | nextId, between⟩
    · have failed := fails whole
      rw [ended] at failed
      cases failed
    · cases (succeeds whole).symm.trans ended
      exact storable_of_imported whole imported
  · intro storable
    have same : records.map Record.stored = records.map Record.sent :=
      List.map_congr_left fun record member =>
        Record.stored_eq_sent_iff.mpr ⟨(storable record member).url, (storable record member).type⟩
    have wellFormed : ∀ res ∈ records.map Record.stored, res.WellFormed := by
      intro res member
      obtain ⟨record, inRecords, rfl⟩ := List.mem_map.mp member
      exact (storable record inRecords).wellFormed
    rw [← same] at fresh
    obtain ⟨after, imported⟩ := importTxn_of_fresh agree wellFormed fresh
    exact ⟨after, succeeds imported, same ▸ imported_of_importTxn agree imported⟩

/-- A response of which nothing is known but its URL and its status. -/
def Record.bare (status : ℤ) (positive : 0 ≤ status) (int : status < 2 ^ 31) : Record where
  time := some 1
  url := "http://a/".toList.map fun c => UInt8.ofNat c.toNat
  status := status
  type := []
  length := none
  digests := fun _ => none
  time_range := by simp
  url_fits := by decide
  url_accepted := by decide +kernel
  status_range := by omega
  status_int := by omega
  type_fits := by decide
  length_range := by simp
  digest_fits := by simp
  blake_fits := by simp

theorem import_exact_sample :
    (∃ after, connection (bytes [Record.bare 200 (by decide) (by decide)]) ∅ = (.ok (), after) ∧
      Imported [(Record.bare 200 (by decide) (by decide)).sent] ∅ after) ↔
    ∀ record ∈ [Record.bare 200 (by decide) (by decide)], record.Storable :=
  @import_exact_iff [Record.bare 200 (by decide) (by decide)] ∅ tablesAgree_empty
    fun _ _ => Finmap.notMem_empty

/-- **A response of the greatest status** is not stored: its sum with 0xffff is out of
range. -/
theorem greatest_status_overflows :
    (connection (bytes [Record.bare (2 ^ 31 - 1) (by decide) (by decide)]) ∅).1 =
      .error (.fault .signedOverflow) ∧
    ¬ ∃ after, connection (bytes [Record.bare (2 ^ 31 - 1) (by decide) (by decide)]) ∅ =
        (.ok (), after) ∧
      Imported [(Record.bare (2 ^ 31 - 1) (by decide) (by decide)).sent] ∅ after := by
  have whole : (importTxn [(Record.bare (2 ^ 31 - 1) (by decide) (by decide)).stored] 0 ∅).1 =
      .error (.fault .signedOverflow) := by
    decide +kernel
  have failed : (connection (bytes [Record.bare (2 ^ 31 - 1) (by decide) (by decide)]) ∅).1 =
      .error (.fault .signedOverflow) :=
    (connection_bytes _ ∅).2 (Prod.ext whole rfl)
  refine ⟨failed, ?_⟩
  rintro ⟨after, ended, -⟩
  rw [ended] at failed
  cases failed

end HashArchive.Import
