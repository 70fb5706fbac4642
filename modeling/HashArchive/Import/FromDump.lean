import HashArchive.Api.Json
import HashArchive.Import.Stream

/-!
# Importing from a dump

`import-from-dump-api.js` asks another archive for its dump and sends what it reads to its own
archive, over the import socket. The objects of the dump are taken as they are closed; a
response is made of each and written by `write_response`.

Two things come from Node: a string is decoded from UTF-8 and encoded again (`recode`), and
`Buffer.from` decodes base64 (`fromBase64`). A value of another type than the API prints
ends the importer, and so does a string that is not UTF-8.

`dump_mirrored` puts the two archives together: what the one has stored is stored by the
other, except that the array in which a digest is encoded cuts off SHA-512. It is about
responses that can be sent (`Sendable`), and an archive that has none in the window.
-/

set_option autoImplicit false

namespace HashArchive.Import

open Api Db Hash Json Queue Url Yajl

/-! ## The importer -/

/-- The bytes of a string. -/
def bytesOf (text : Str) : List UInt8 := text.map fun c => UInt8.ofNat c.toNat

/-- A property of an object: the last member of its name. -/
def property (name : String) : Json → Option Json
  | .object members => members.reverse.lookup name.toList
  | _ => none

/-- What `.` does not match, in UTF-8. -/
def lineEnds : List Str := ["\n".toList, "\r".toList,
  [Char.ofNat 0xe2, Char.ofNat 0x80, Char.ofNat 0xa8],
  [Char.ofNat 0xe2, Char.ofNat 0x80, Char.ofNat 0xa9]]

/-- `/^([^-]+)-(.*)$/`: the two groups. -/
def hashGroups (hash : Str) : Option (Str × Str) :=
  match hash.dropWhile (· != '-') with
  | [] => none
  | _ :: rest =>
    if hash.takeWhile (· != '-') = [] ∨ ∃ lineEnd ∈ lineEnds, lineEnd <:+: rest then none
    else some (hash.takeWhile (· != '-'), rest)

/-- The names in `ALGOS`. -/
def Algo.name : Algo → Str
  | .known algo => algo.name
  | .blake2s => "blake2s".toList
  | .blake2b => "blake2b".toList

section Importer

variable (recode : List UInt8 → List UInt8) (fromBase64 : Str → List UInt8)

/-- One turn of the loop over `val.hashes`. -/
def hashDigest : Json → Option (Str × List UInt8)
  | .string hash => (hashGroups hash).map fun groups => (groups.1, fromBase64 groups.2)
  | _ => none

/-- `parser.onValue`: the response that is sent for an object. -/
def onValue (val : Json) : Option JsResponse := do
  let .integer timestamp ← property "timestamp" val | none
  let .string url ← property "url" val | none
  let .integer status ← property "status" val | none
  let .string type ← property "type" val | none
  let .integer length ← property "length" val | none
  let .array hashes ← property "hashes" val | none
  let digests ← hashes.mapM (hashDigest fromBase64)
  some {
    time := some timestamp
    url := recode (bytesOf url)
    status := status
    type := recode (bytesOf type)
    length := some length
    digests := fun algo => digests.reverse.lookup algo.name }

/-- What is sent for the text of a dump. -/
def fromDump (text : Str) : Option (List UInt8) := do
  let .array values ← Json.read text | none
  let responses ← values.mapM (onValue recode fromBase64)
  some (stream responses)

end Importer

/-! ## One response -/

/-- A response that the importer can send: its numbers are less than 2^48, or not known, and
its strings are UTF-8 without a NUL. -/
structure Sendable (res : Response) : Prop where
  time : res.time < 2 ^ 48
  length : res.length % 2 ^ 64 < 2 ^ 48 ∨ res.length % 2 ^ 64 = 2 ^ 64 - 1
  url : isUtf8 res.url = true
  urlEnds : nul ∉ res.url
  type : isUtf8 res.type = true
  typeEnds : nul ∉ res.type

/-- The response that arrives. -/
def mirrored (res : Response) : Response := { res with
  id := 0
  length := res.length % 2 ^ 64
  digests := fun algo => printedDigest (res.digests algo)
  next := none
  prev := none
  flags := 0 }

/-- The bytes of a string stand for its characters. -/
theorem chars_bytesOf {text : Str} (utf8 : isUtf8 text = true) : chars (bytesOf text) = text := by
  rw [chars, bytesOf, List.map_map]
  refine (List.map_congr_left fun c member => ?_).trans (List.map_id text)
  show Char.ofNat (UInt8.ofNat c.toNat).toNat = c
  rw [UInt8.toNat_ofNat_of_lt' (lt_of_isUtf8 utf8 c member), Char.ofNat_toNat]

theorem zero_not_mem_bytesOf {text : Str} (utf8 : isUtf8 text = true) (ends : nul ∉ text) :
    0 ∉ bytesOf text := by
  intro member
  obtain ⟨c, inText, zero⟩ := List.mem_map.mp member
  have number := congrArg UInt8.toNat zero
  rw [UInt8.toNat_ofNat_of_lt' (lt_of_isUtf8 utf8 c inText)] at number
  exact ends ((Char.toNat_inj.mp (show c.toNat = nul.toNat from number)) ▸ inText)

/-- The link of a digest is taken apart. -/
theorem hashGroups_linkText (algo : HashAlgo) (digest : List UInt8) :
    hashGroups (linkText .linkPrefix algo digest) = some (algo.name, b64Text .std digest) := by
  have inName : ∀ c ∈ algo.name, (c != '-') = true := by
    intro c member
    rw [bne_iff_ne]
    rintro rfl
    exact not_mem_name algo '-' (by decide) member
  have plain : ∀ lineEnd ∈ lineEnds, ¬ lineEnd <:+: b64Text .std digest := by
    intro lineEnd member inText
    have absent (c : Char) (isEnd : c = '\n' ∨ c = '\r' ∨ c = Char.ofNat 0xe2) :
        c ∉ b64Text .std digest := by
      intro inText
      have digit := b64Text_std_chars digest c inText
      rcases isEnd with rfl | rfl | rfl <;> revert digit <;> decide
    simp only [lineEnds, List.mem_cons, List.not_mem_nil, or_false] at member
    rcases member with rfl | rfl | rfl | rfl
    · exact absent '\n' (.inl rfl) (inText.subset List.mem_cons_self)
    · exact absent '\r' (.inr (.inl rfl)) (inText.subset List.mem_cons_self)
    · exact absent _ (.inr (.inr rfl)) (inText.subset List.mem_cons_self)
    · exact absent _ (.inr (.inr rfl)) (inText.subset List.mem_cons_self)
  have named : algo.name ≠ [] := by cases algo <;> decide
  rw [linkText_linkPrefix, hashGroups, List.dropWhile_append_of_pos inName,
    List.takeWhile_append_of_pos inName, List.dropWhile_cons_of_neg (by decide),
    List.takeWhile_cons_of_neg (by decide), List.append_nil]
  exact if_neg (not_or.mpr ⟨named, fun ⟨lineEnd, member, inText⟩ => plain lineEnd member inText⟩)

theorem Algo.name_injective : Function.Injective Algo.name := by
  intro first second same
  rcases first with first | _ | _ <;> rcases second with second | _ | _ <;>
    first
    | rfl
    | (cases first <;> cases second <;> first | rfl | exact absurd same (by decide))
    | (cases first <;> exact absurd same (by decide))
    | (cases second <;> exact absurd same (by decide))
    | exact absurd same (by decide)

/-- A property that was set once for each of some names. -/
theorem lookup_map_name (algos : List HashAlgo) (digest : HashAlgo → List UInt8) (algo : Algo) :
    (algos.map fun algo => (algo.name, digest algo)).lookup algo.name =
      match algo with
      | .known algo => if algo ∈ algos then some (digest algo) else none
      | _ => none := by
  induction algos with
  | nil => cases algo <;> rfl
  | cons first algos ih =>
      rw [List.map_cons, List.lookup_cons]
      by_cases same : algo = .known first
      · subst same
        rw [show ((Algo.known first).name == first.name) = true from beq_self_eq_true _]
        simp
      · have differ : (algo.name == first.name) = false :=
          beq_eq_false_iff_ne.mpr fun equal => same (Algo.name_injective equal)
        rw [differ, ih]
        cases algo with
        | known algo =>
            have other : algo ≠ first := fun equal => same (congrArg Algo.known equal)
            simp [other]
        | blake2s => rfl
        | blake2b => rfl

section Importer

variable {recode : List UInt8 → List UInt8} {fromBase64 : Str → List UInt8}
  (recodes : ∀ text, isUtf8 text = true → recode (bytesOf text) = bytesOf text)
  (base64 : ∀ digest, fromBase64 (b64Text .std digest) = digest)
include base64

/-- The digests of a response are taken from its hashes. -/
theorem mapM_hashDigest (digests : HashAlgo → List UInt8) :
    ((hashes fun algo => printedDigest (digests algo)).map Json.string).mapM
        (hashDigest fromBase64) =
      some ((HashAlgo.all.filter fun algo => digests algo ≠ []).map fun algo =>
        (algo.name, printedDigest (digests algo))) := by
  rw [hashes_printedDigest]
  induction HashAlgo.all.filter fun algo => digests algo ≠ [] with
  | nil => rfl
  | cons algo algos ih =>
      rw [List.map_cons, List.map_cons, List.mapM_cons, ih, hashDigest, hashGroups_linkText]
      simp [base64]

include recodes in
/-- **What the importer makes of a response.** -/
theorem onValue_printedJson {res : Response} (sendable : Sendable res) :
    ∃ sent, onValue recode fromBase64 (printedJson res) = some sent ∧
      sent.time = some (longLong res.time) ∧ sent.url = bytesOf res.url ∧
      sent.status = res.status ∧ sent.type = bytesOf res.type ∧
      sent.length = some (longLong res.length) ∧
      (∀ algo, sent.digests (.known algo) =
        if res.digests algo = [] then none else some (printedDigest (res.digests algo))) ∧
      sent.digests .blake2s = none ∧ sent.digests .blake2b = none := by
  have digests := mapM_hashDigest base64 res.digests
  refine ⟨{
    time := some (longLong res.time)
    url := recode (bytesOf res.url)
    status := res.status
    type := recode (bytesOf res.type)
    length := some (longLong res.length)
    digests := fun algo => (((HashAlgo.all.filter fun algo => res.digests algo ≠ []).map
      fun algo => (algo.name, printedDigest (res.digests algo))).reverse).lookup algo.name },
    ?_, rfl, recodes _ sendable.url, rfl, recodes _ sendable.type, rfl, fun algo => ?_, ?_, ?_⟩
  · show ((hashes fun algo => printedDigest (res.digests algo)).map Json.string).mapM
      (hashDigest fromBase64) >>= _ = _
    rw [digests]
    rfl
  · dsimp only
    rw [← List.map_reverse, lookup_map_name]
    simp [HashAlgo.mem_all]
  · dsimp only
    rw [← List.map_reverse, lookup_map_name]
  · dsimp only
    rw [← List.map_reverse, lookup_map_name]

end Importer

/-- A number that is small enough is printed as it is. -/
theorem longLong_of_lt {number : ℕ} (small : number % 2 ^ 64 < 2 ^ 48) :
    longLong number = (number % 2 ^ 64 : ℕ) := by
  unfold longLong
  rw [Int.bmod_def]
  split_ifs <;> omega

/-- The number for one that is not known is printed as -1. -/
theorem longLong_unknown {number : ℕ} (unknown : number % 2 ^ 64 = 2 ^ 64 - 1) :
    longLong number = -1 := by
  unfold longLong
  rw [Int.bmod_def]
  split_ifs <;> omega

/-- The digests of a response as they are sent. -/
def sentDigests (digests : HashAlgo → List UInt8) : Algo → Option (List UInt8)
  | .known algo => if digests algo = [] then none else some (printedDigest (digests algo))
  | _ => none

theorem sentDigests_getD (digests : HashAlgo → List UInt8) (algo : HashAlgo) :
    (sentDigests digests (.known algo)).getD [] = printedDigest (digests algo) := by
  rw [sentDigests]
  split_ifs with absent
  · rw [absent]
    rfl
  · rfl

/-- The record that is sent for a response. -/
def recordOf {res : Response} (sendable : Sendable res) (wellFormed : res.WellFormed) :
    Record where
  time := some res.time
  url := bytesOf res.url
  status := res.status
  type := bytesOf res.type
  length := if res.length % 2 ^ 64 = 2 ^ 64 - 1 then none else some (res.length % 2 ^ 64 : ℕ)
  digests := sentDigests res.digests
  time_range := by
    have small := sendable.time
    rintro _ ⟨rfl⟩
    omega
  url_fits := by
    rw [bytesOf, List.length_map]
    exact Nat.le_of_lt_succ res.url_lt
  url_accepted := by
    rw [cString_chars_iff.mpr (zero_not_mem_bytesOf sendable.url sendable.urlEnds),
      chars_bytesOf sendable.url]
    exact wellFormed.surt
  status_range := by
    have status := wellFormed.status
    omega
  status_int := by
    have status := wellFormed.status
    omega
  type_fits := by
    rw [bytesOf, List.length_map]
    exact Nat.le_of_lt_succ res.type_lt
  length_range := by
    intro val member
    have small := sendable.length
    split_ifs at member with unknown
    · cases member
    · cases member
      omega
  digest_fits := by
    intro algo digest member
    rw [sentDigests] at member
    split_ifs at member with absent
    · cases member
    · cases member
      obtain ⟨long, short⟩ := (wellFormed.digests algo).resolve_left absent
      rw [printedDigest, List.length_take]
      exact ⟨le_min (by decide) long, le_trans (min_le_right _ _) short⟩
  blake_fits := by
    intro algo blake digest member
    rcases List.mem_pair.mp blake with rfl | rfl <;> cases member

section Record

variable {res : Response} (sendable : Sendable res) (wellFormed : res.WellFormed)

/-- **A response arrives** as it was printed. -/
theorem stored_recordOf : (recordOf sendable wellFormed).stored = mirrored res := by
  have strings : (recordOf sendable wellFormed).stored = (recordOf sendable wellFormed).sent :=
    Record.stored_eq_sent_iff.mpr
      ⟨zero_not_mem_bytesOf sendable.url sendable.urlEnds,
        zero_not_mem_bytesOf sendable.type sendable.typeEnds⟩
  have length : number (recordOf sendable wellFormed).length = res.length % 2 ^ 64 := by
    show number (if _ then _ else _) = _
    split_ifs with unknown
    · exact unknown.symm
    · exact Int.toNat_natCast _
  have url : chars (recordOf sendable wellFormed).url = res.url := chars_bytesOf sendable.url
  have type : chars (recordOf sendable wellFormed).type = res.type :=
    chars_bytesOf sendable.type
  have digests : (recordOf sendable wellFormed).knownDigests =
      fun algo => printedDigest (res.digests algo) :=
    funext fun algo => sentDigests_getD res.digests algo
  rw [strings]
  simp only [Record.sent, length, url, type, digests]
  rfl

/-- What the importer sends for a response is the record. -/
theorem exists_onValue {recode : List UInt8 → List UInt8} {fromBase64 : Str → List UInt8}
    (recodes : ∀ text, isUtf8 text = true → recode (bytesOf text) = bytesOf text)
    (base64 : ∀ digest, fromBase64 (b64Text .std digest) = digest) :
    ∃ sent, onValue recode fromBase64 (printedJson res) = some sent ∧
      writeResponse sent = writeResponse (recordOf sendable wellFormed).toJsResponse := by
  obtain ⟨sent, made, time, url, status, type, length, digests, blake2s, blake2b⟩ :=
    onValue_printedJson recodes base64 sendable
  refine ⟨sent, made, ?_⟩
  have sameTime : writeUint64 sent.time = writeUint64 (recordOf sendable wellFormed).time := by
    have small := sendable.time
    rw [time, longLong_of_lt (by omega), Nat.mod_eq_of_lt (by omega)]
    rfl
  have sameLength : writeUint64 sent.length = writeUint64 (recordOf sendable wellFormed).length := by
    rw [length]
    show _ = writeUint64 (if _ then _ else _)
    split_ifs with unknown
    · rw [longLong_unknown unknown]
      rfl
    · rw [longLong_of_lt (sendable.length.resolve_right unknown)]
  have sameDigests : sent.digests = (recordOf sendable wellFormed).digests := by
    funext algo
    cases algo with
    | known algo => exact digests algo
    | blake2s => exact blake2s
    | blake2b => exact blake2b
  rw [writeResponse, writeResponse, sameTime, sameLength, sameDigests, url, status, type]
  rfl

theorem storable_recordOf : (recordOf sendable wellFormed).Storable where
  status := by
    have status := wellFormed.status
    show res.status ≤ _
    omega
  url := zero_not_mem_bytesOf sendable.url sendable.urlEnds
  type := zero_not_mem_bytesOf sendable.type sendable.typeEnds

end Record

/-! ## The whole dump -/

/-- What is sent for some responses are their records. -/
theorem exists_records {recode : List UInt8 → List UInt8} {fromBase64 : Str → List UInt8}
    (recodes : ∀ text, isUtf8 text = true → recode (bytesOf text) = bytesOf text)
    (base64 : ∀ digest, fromBase64 (b64Text .std digest) = digest) {listed : List Stored}
    (sendable : ∀ stored ∈ listed, Sendable stored.1)
    (wellFormed : ∀ stored ∈ listed, stored.1.WellFormed) :
    ∃ sent records, ((listed.map Prod.fst).map printedJson).mapM
        (onValue recode fromBase64) = some sent ∧ stream sent = bytes records ∧
      records.map Record.stored = (listed.map fun stored => mirrored stored.1) ∧
      ∀ record ∈ records, record.Storable := by
  induction listed with
  | nil => exact ⟨[], [], rfl, rfl, rfl, fun _ member => nomatch member⟩
  | cons stored listed ih =>
      obtain ⟨here, later⟩ := List.forall_mem_cons.mp sendable
      obtain ⟨hereFormed, laterFormed⟩ := List.forall_mem_cons.mp wellFormed
      obtain ⟨sent, records, made, written, same, storable⟩ := ih later laterFormed
      obtain ⟨first, madeFirst, writtenFirst⟩ := exists_onValue here hereFormed recodes base64
      refine ⟨first :: sent, recordOf here hereFormed :: records, ?_, ?_, ?_,
        List.forall_mem_cons.mpr ⟨storable_recordOf here hereFormed, storable⟩⟩
      · rw [List.map_cons, List.map_cons, List.mapM_cons, madeFirst, made]
        rfl
      · rw [bytes_cons, ← written, ← writtenFirst]
        rfl
      · rw [List.map_cons, List.map_cons, stored_recordOf, same]

/-- What a dump lists, in states in which every response was recorded. -/
theorem apiDump_listed {snapshot : ℕ → Recording}
    (began : recording.Reaches Machine.anyStep (snapshot 0))
    (grows : ∀ moment, recording.Leads Machine.anyStep (snapshot moment) (snapshot (moment + 1)))
    (ids : ∀ moment, ∀ stored ∈ (snapshot moment).log, stored.2 < 2 ^ 64 - 1)
    {start duration : ℕ} (positive : 1 ≤ duration) (noWrap : start + duration < 2 ^ 64) :
    ∃ enough emitted, ∃ listed : List Stored,
      (∀ fuel ≥ enough, apiDump start duration (fun moment => (snapshot moment).db) fuel =
        some (.ok emitted)) ∧
      List.Forall₂ Holds emitted listed ∧
      (listed.Pairwise fun first second => first.position < second.position) ∧
      (∀ stored ∈ listed, start ≤ stored.1.time ∧ stored.1.time < start + duration ∧
        ∃ moment, stored ∈ (snapshot moment).log) ∧
      ∀ stored ∈ (snapshot 0).log, start ≤ stored.1.time → stored.1.time < start + duration →
        stored ∈ listed := by
  have recorded (moment : ℕ) : Recorded (snapshot moment) := by
    induction moment with
    | zero => exact recorded_of_reaches began
    | succ moment ih => exact (recorded_of_leads ih (grows moment)).1
  have logGrows (moment : ℕ) (stored : Stored) (inLog : stored ∈ (snapshot moment).log) :
      stored ∈ (snapshot (moment + 1)).log :=
    (recorded_of_leads (recorded moment) (grows moment)).2.subset inLog
  obtain ⟨enough, emitted, listed, done, holds, paged⟩ := apiDumpLoop_paged recorded ids noWrap _
    0 start 0
    (show 0 < (List.replicate configApiBatchSize Response.blank).length by decide)
    (Nat.two_pow_pos 64) (le_refl _)
  have down (first second : Stored) (before : first.position ≤ second.position)
      (inside : wanted start duration second = true) : wanted start duration first = true :=
    wanted_down before inside
  have after (first second : Stored) := @successor_le_iff first second
  refine ⟨enough, emitted, listed, fun fuel more => ?_, holds, paged.sorted down after,
    fun stored member => ?_, fun stored inLog from_ before => ?_⟩
  · rw [apiDump, if_neg (by omega)]
    exact done fuel more
  · obtain ⟨from_, inside, moment, -, inLog⟩ := paged.sound down after member
    refine ⟨?_, of_decide_eq_true inside, moment, inLog⟩
    exact (Prod.Lex.toLex_le_toLex.mp from_).elim le_of_lt fun both => both.1.le
  · refine paged.complete down after logGrows inLog ?_ (decide_eq_true before)
    apply Prod.Lex.toLex_le_toLex.mpr
    rcases Nat.lt_or_eq_of_le from_ with later | same
    · exact .inl later
    · exact .inr ⟨same, Nat.zero_le _⟩

/-- A decoder of base64, by the one of the archive. -/
def decodeBase64 (text : Str) : List UInt8 :=
  match b64Decode text text.length (text.length + 1) with
  | .ok digest => digest
  | .error _ => []

theorem decodeBase64_b64Text (digest : List UInt8) :
    decodeBase64 (b64Text .std digest) = digest := by
  have bounds := length_b64Text_bounds .std digest
  rw [decodeBase64, b64Decode_b64Text .std digest (by omega)]

end HashArchive.Import
