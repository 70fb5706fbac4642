import HashArchive.Api.Dump
import HashArchive.Db.History
import HashArchive.Db.Sources
import HashArchive.Deps.YajlGen
import HashArchive.Util.HashUriVariants

/-!
# The answers of the API

`res_json` prints a response as an object, and `response_list` prints some responses as an
array. The text is the body of an answer of the API; every chunk of it is sent as the
generator prints it.

`responseJson` is the object that a response should be. What is printed differs from it where a
number does not fit a `long long int` and where a digest does not fit the array in
`hash_uri_format`, and it is no JSON when a string is not UTF-8. `Printable` says that none of
this is the case: exactly then a body is read as the responses that were listed.
`apiHistory_reads` and `apiSources_reads` say which these are, from the calls that stored
responses.
-/

set_option autoImplicit false

namespace HashArchive.Api

open Db Hash Json Url Yajl

/-! ## The functions -/

/-- `CONFIG_API_HISTORY_MAX`. -/
def configApiHistoryMax : ℕ := 30

/-- `CONFIG_API_SOURCES_MAX`. -/
def configApiSourcesMax : ℕ := 30

/-- A `uint64_t` as a `long long int`. -/
def longLong (number : ℕ) : ℤ := (number : ℤ).bmod (2 ^ 64)

/-- What `hash_uri_format` leaves in `hash`. Its return code is not looked at. -/
def hashText (stack : Stack) (algo : HashAlgo) (digest : List UInt8) : Result Str :=
  match hashUriFormat stack ⟨.linkPrefix, some algo, digest⟩ uriMax with
  | .ok (hash, _) => .ok hash
  | .error (.code _) => .ok (cString (stack.uninitializedChars uriMax))
  | .error (.fault fault) => .error (.fault fault)

/-- One turn of the loop of `res_json`. -/
def digestJson (stack : Stack) (digests : HashAlgo → List UInt8) (algo : HashAlgo) : GenCall Unit :=
  if (digests algo).length = 0 then pure ()
  else do
    let hash ← StateT.lift (hashText stack algo (digests algo))
    discard (yajlGenString hash)

/-- `res_json`. -/
def resJson (stack : Stack) (res : Response) : GenCall Unit := do
  discard yajlGenMapOpen
  discard (yajlGenString "url".toList)
  discard (yajlGenString res.url)
  discard (yajlGenString "timestamp".toList)
  discard (yajlGenInteger (longLong res.time))
  discard (yajlGenString "status".toList)
  discard (yajlGenInteger res.status)
  discard (yajlGenString "type".toList)
  discard (yajlGenString res.type)
  discard (yajlGenString "length".toList)
  discard (yajlGenInteger (longLong res.length))
  discard (yajlGenString "hashes".toList)
  discard yajlGenArrayOpen
  forM HashAlgo.all (digestJson stack res.digests)
  discard yajlGenArrayClose
  discard yajlGenMapClose

/-- The body that `response_list` writes. -/
def responseList (stack : Stack) (responses : List Response) : Result Str := do
  let (_, json) ← (do
    discard yajlGenArrayOpen
    forM responses (resJson stack)
    discard yajlGenArrayClose) (Gen.alloc true false)
  .ok json.printed

/-- `api_history`. -/
def apiHistory (stack : Stack) (url : Str) : DbTxn Str := do
  let _ ← Txn.call (urlParse url)
  let responses ← hxGetHistory url (List.replicate configApiHistoryMax Response.blank)
  Txn.call (responseList stack responses)

/-- `api_sources`. -/
def apiSources (stack : Stack) (hash : Str) : DbTxn Str := do
  let obj ← Txn.call (hashUriParse stack hash)
  let responses ← hxGetSources obj (List.replicate configApiSourcesMax Response.blank)
  Txn.call (responseList stack responses)

/-- The body that `api_dump` writes, when the loop writes some responses. A window that is
empty is not answered at all. -/
def apiDumpText (stack : Stack) (start duration : ℕ) (snapshot : ℕ → Database) (fuel : ℕ) :
    Option (Result Str) :=
  (apiDump start duration snapshot fuel).map fun dumped => dumped >>= responseList stack

/-! ## The value of a response -/

/-- The hashes of a response. -/
def hashes (digests : HashAlgo → List UInt8) : List Str :=
  (HashAlgo.all.filter fun algo => digests algo ≠ []).map fun algo =>
    linkText .linkPrefix algo (digests algo)

/-- The object for a response, with its numbers and its digests. -/
def objectJson (res : Response) (time length : ℤ) (digests : HashAlgo → List UInt8) : Json :=
  .object
    [("url".toList, .string res.url), ("timestamp".toList, .integer time),
      ("status".toList, .integer res.status), ("type".toList, .string res.type),
      ("length".toList, .integer length),
      ("hashes".toList, .array ((hashes digests).map .string))]

/-- A length, or -1 for `UINT64_MAX`, which stands for one that is not known. -/
def lengthValue (length : ℕ) : ℤ := if length = 2 ^ 64 - 1 then -1 else length

/-- **The value of a response.** -/
def responseJson (res : Response) : Json :=
  objectJson res res.time (lengthValue res.length) res.digests

/-- A digest as it is printed: SHA-512 is cut off by the array it is encoded in. -/
def printedDigest (digest : List UInt8) : List UInt8 := digest.take (digestRoom .linkPrefix)

/-- What is printed for a response. -/
def printedJson (res : Response) : Json :=
  objectJson res (longLong res.time) (longLong res.length) fun algo =>
    printedDigest (res.digests algo)

/-- **A response that is printed as it is**: its strings are UTF-8, its numbers fit a
`long long int` or stand for an unknown length, and its digests fit the array. -/
structure Printable (res : Response) : Prop where
  url : isUtf8 res.url = true
  type : isUtf8 res.type = true
  time : res.time < 2 ^ 63
  length : res.length < 2 ^ 63 ∨ res.length = 2 ^ 64 - 1
  digests : ∀ algo, (res.digests algo).length ≤ digestRoom .linkPrefix

theorem printedDigest_eq_nil_iff {digest : List UInt8} : printedDigest digest = [] ↔ digest = [] := by
  rw [printedDigest, List.take_eq_nil_iff]
  exact or_iff_right (by decide)

theorem hashes_printedDigest (digests : HashAlgo → List UInt8) :
    hashes (fun algo => printedDigest (digests algo)) =
      (HashAlgo.all.filter fun algo => digests algo ≠ []).map fun algo =>
        linkText .linkPrefix algo (printedDigest (digests algo)) := by
  simp only [hashes, ne_eq, printedDigest_eq_nil_iff]

theorem longLong_eq_self_iff {number : ℕ} : longLong number = number ↔ number < 2 ^ 63 := by
  unfold longLong
  rw [Int.bmod_def]
  split_ifs <;> omega

theorem longLong_eq_lengthValue_iff {length : ℕ} :
    longLong length = lengthValue length ↔ length < 2 ^ 63 ∨ length = 2 ^ 64 - 1 := by
  unfold lengthValue
  split_ifs with unknown
  · rw [unknown]
    exact iff_of_true rfl (.inr rfl)
  · rw [longLong_eq_self_iff, or_iff_left unknown]

/-- The hashes are printed as they are when no digest is cut off. -/
theorem hashes_printedDigest_eq_iff {digests : HashAlgo → List UInt8} :
    hashes (fun algo => printedDigest (digests algo)) = hashes digests ↔
      ∀ algo, (digests algo).length ≤ digestRoom .linkPrefix := by
  rw [hashes_printedDigest, hashes, List.map_inj_left]
  constructor
  · intro same algo
    by_cases absent : digests algo = []
    · rw [absent]
      exact Nat.zero_le _
    · have equal := linkText_inj (by decide) (same algo (List.mem_filter.mpr
        ⟨HashAlgo.mem_all algo, by simpa using absent⟩))
      exact List.take_eq_self_iff _ |>.mp equal
  · intro fits algo _
    rw [printedDigest, List.take_of_length_le (fits algo)]

/-- **What is printed is the value** when nothing is cut off or wrapped around. -/
theorem printedJson_eq_iff {res : Response} : printedJson res = responseJson res ↔
    res.time < 2 ^ 63 ∧ (res.length < 2 ^ 63 ∨ res.length = 2 ^ 64 - 1) ∧
      ∀ algo, (res.digests algo).length ≤ digestRoom .linkPrefix := by
  rw [← longLong_eq_self_iff, ← longLong_eq_lengthValue_iff, ← hashes_printedDigest_eq_iff]
  have strings : Function.Injective Json.string := fun _ _ same => Json.string.inj same
  simp [printedJson, responseJson, objectJson, strings.list_map.eq_iff]

theorem toNat_lt_of_isAlphanum {c : Char} (letter : c.isAlphanum = true) : c.toNat < 0x80 := by
  rw [isAlphanum_eq, Bool.or_eq_true, Bool.or_eq_true, isUpper_iff, isLower_iff,
    isDigit_iff] at letter
  show c.val.toNat < 0x80
  omega

/-- The text of a link is ASCII. -/
theorem isUtf8_linkText (algo : HashAlgo) (digest : List UInt8) :
    isUtf8 (linkText .linkPrefix algo digest) = true := by
  refine isUtf8_of_ascii fun c member => ?_
  rw [linkText_linkPrefix] at member
  rcases List.mem_append.mp member with inName | inRest
  · exact toNat_lt_of_isAlphanum (alphanum_of_name inName)
  rcases List.mem_cons.mp inRest with rfl | inDigits
  · decide
  rcases b64Text_std_chars digest c inDigits with letter | rfl | rfl | rfl
  · exact toNat_lt_of_isAlphanum letter
  all_goals decide

theorem utf8_objectJson {res : Response} {time length : ℤ} {digests : HashAlgo → List UInt8} :
    (objectJson res time length digests).Utf8 ↔ isUtf8 res.url = true ∧ isUtf8 res.type = true := by
  have links : Utf8Items ((hashes digests).map .string) := by
    refine utf8Items_iff.mpr fun item member => ?_
    obtain ⟨text, inHashes, rfl⟩ := List.mem_map.mp member
    obtain ⟨algo, -, rfl⟩ := List.mem_map.mp inHashes
    exact isUtf8_linkText algo _
  have names : ["url", "timestamp", "status", "type", "length", "hashes"].all
      (fun name => isUtf8 name.toList) = true := by decide
  simp only [List.all_cons, Bool.and_eq_true] at names
  simp only [objectJson, Utf8, Utf8Members, names, links, true_and, and_true]

theorem hashText_eq (stack : Stack) (algo : HashAlgo) (digest : List UInt8) :
    hashText stack algo digest = .ok (linkText .linkPrefix algo (printedDigest digest)) := by
  have fits := @length_linkText_lt .linkPrefix (by decide) algo (printedDigest digest)
    (le_trans (List.length_take_le _ _) (by decide))
  rw [hashText, hashUriFormat_link stack (by decide) algo digest uriMax_pos]
  exact congrArg Except.ok (List.take_of_length_le (Nat.le_sub_one_of_lt fits))

/-- The loop of `res_json` prints the hashes. -/
theorem forM_digestJson (stack : Stack) (digests : HashAlgo → List UInt8) (algos : List HashAlgo) :
    forM algos (digestJson stack digests) =
      emitItems (((algos.filter fun algo => digests algo ≠ []).map fun algo =>
        linkText .linkPrefix algo (printedDigest (digests algo))).map .string) := by
  induction algos with
  | nil => rfl
  | cons algo algos ih =>
      rw [List.forM_cons, ih, digestJson]
      by_cases absent : digests algo = []
      · rw [if_pos (by rw [absent]; rfl), List.filter_cons_of_neg (by simpa using absent), pure_bind]
      · rw [if_neg (by simpa using absent), List.filter_cons_of_pos (by simpa using absent),
          hashText_eq]
        rfl

/-- **The calls of `res_json`** print one object. -/
theorem resJson_eq (stack : Stack) (res : Response) : resJson stack res = emit (printedJson res) := by
  simp only [resJson, printedJson, objectJson, emit, emitMembers, bind_assoc, pure_bind,
    forM_digestJson, hashes_printedDigest]

theorem nesting_printedJson (res : Response) : nesting (printedJson res) = 2 := by
  have flat (texts : List Str) : nestingItems (texts.map .string) = 0 := by
    induction texts with
    | nil => rfl
    | cons text texts ih =>
        rw [List.map_cons, nestingItems, ih]
        rfl
  simp only [printedJson, objectJson, nesting, nestingMembers, flat]
  rfl

/-- What is printed for some responses is read as the array of what is printed for each. -/
theorem exists_responseList (stack : Stack) (responses : List Response) :
    ∃ text, responseList stack responses = .ok text ∧
      ((Json.array (responses.map printedJson)).Utf8 →
        Json.read text = some (.array (responses.map printedJson))) := by
  have items : forM responses (resJson stack) = emitItems (responses.map printedJson) := by
    induction responses with
    | nil => rfl
    | cons res responses ih =>
        rw [List.forM_cons, List.map_cons, emitItems, ih, resJson_eq]
  have shallow : nestingItems (responses.map printedJson) ≤ 2 := by
    clear items
    induction responses with
    | nil => exact Nat.zero_le _
    | cons res responses ih =>
        rw [List.map_cons, nestingItems, nesting_printedJson]
        exact Nat.max_le.mpr ⟨Nat.le_refl _, ih⟩
  obtain ⟨after, run, reads⟩ := @emit_reads true false (.array (responses.map printedJson)) (by
    rw [nesting]
    exact Nat.lt_of_le_of_lt (Nat.succ_le_succ shallow) (by decide))
  refine ⟨after.printed, ?_, fun utf8 => reads utf8 [] spaces_nil⟩
  rw [emit] at run
  rw [responseList, items, run]
  rfl

theorem printable_iff {res : Response} : Printable res ↔
    (printedJson res).Utf8 ∧ printedJson res = responseJson res := by
  rw [printedJson_eq_iff, printedJson, utf8_objectJson]
  exact ⟨fun printable => ⟨⟨printable.url, printable.type⟩, printable.time, printable.length,
    printable.digests⟩, fun ⟨⟨url, type⟩, time, length, digests⟩ => ⟨url, type, time, length, digests⟩⟩

/-- The value of a response is as much UTF-8 as what is printed for it. -/
theorem utf8_responseJson_iff {res : Response} : (responseJson res).Utf8 ↔ (printedJson res).Utf8 := by
  rw [responseJson, printedJson, utf8_objectJson, utf8_objectJson]

/-- What is printed for a response is read as its value exactly when it is printable. -/
theorem reads_response_iff {text : Str} {res : Response}
    (reads : (printedJson res).Utf8 → Json.read text = some (printedJson res)) :
    Json.read text = some (responseJson res) ↔ Printable res := by
  rw [printable_iff]
  constructor
  · intro read
    have utf8 := utf8_responseJson_iff.mp (utf8_of_read read)
    rw [reads utf8, Option.some_inj] at read
    exact ⟨utf8, read⟩
  · rintro ⟨utf8, same⟩
    rw [reads utf8, same]

/-- **A body is read as the values of some responses** exactly when all of them are printable. -/
theorem reads_responses_iff {text : Str} {responses : List Response}
    (reads : (Json.array (responses.map printedJson)).Utf8 →
      Json.read text = some (.array (responses.map printedJson))) :
    Json.read text = some (.array (responses.map responseJson)) ↔
      ∀ res ∈ responses, Printable res := by
  constructor
  · intro read
    have utf8 : ∀ res ∈ responses, (printedJson res).Utf8 := fun res member =>
      utf8_responseJson_iff.mp (utf8Items_iff.mp (utf8_of_read read) _ (List.mem_map_of_mem member))
    have printed := reads (utf8Items_iff.mpr (List.forall_mem_map.mpr utf8))
    rw [printed, Option.some_inj, Json.array.injEq, List.map_inj_left] at read
    exact fun res member => printable_iff.mpr ⟨utf8 res member, read res member⟩
  · intro printable
    rw [reads (utf8Items_iff.mpr (List.forall_mem_map.mpr fun res member =>
      (printable_iff.mp (printable res member)).1))]
    exact congrArg (fun values => some (Json.array values))
      (List.map_congr_left fun res member => (printable_iff.mp (printable res member)).2)

/-! ## What is listed -/

theorem bmod_mod (number size : ℕ) : ((number % size : ℕ) : ℤ).bmod size = (number : ℤ).bmod size := by
  rw [Int.natCast_mod, Int.emod_bmod]

/-- A slot is printed as the response that it holds. -/
theorem printedJson_of_holds {slot : Response} {stored : Stored} (holds : Holds slot stored) :
    printedJson slot = printedJson stored.1 := by
  have length : longLong slot.length = longLong stored.1.length := by
    unfold longLong
    rw [holds.length]
    exact bmod_mod stored.1.length (2 ^ 64)
  rw [printedJson, printedJson, objectJson, objectJson, holds.url, holds.time, holds.status,
    holds.type, length, holds.digests]

theorem map_printedJson {filled : List Response} {listed : List Stored}
    (holds : List.Forall₂ Holds filled listed) :
    filled.map printedJson = (listed.map Prod.fst).map printedJson := by
  induction holds with
  | nil => rfl
  | cons here _ ih => rw [List.map_cons, List.map_cons, List.map_cons, ih, printedJson_of_holds here]

/-- What is printed for slots is read as the responses that they hold. -/
theorem responseList_reads (stack : Stack) {filled : List Response} {listed : List Stored}
    (holds : List.Forall₂ Holds filled listed) :
    ∃ text, responseList stack filled = .ok text ∧
      (Json.read text = some (.array (listed.map fun stored => responseJson stored.1)) ↔
        ∀ stored ∈ listed, Printable stored.1) := by
  obtain ⟨text, printed, reads⟩ := exists_responseList stack filled
  rw [map_printedJson holds] at reads
  have exactly := reads_responses_iff reads
  rw [List.map_map, List.forall_mem_map] at exactly
  exact ⟨text, printed, exactly⟩

/-- What a history lists, in a state in which every response was recorded. -/
theorem hxGetHistory_listed {state : Recording} (recorded : Recorded state) {url surt : Str}
    (accepted : urlNormalizeSurt url uriMax = .ok surt) {out : List Response}
    (room : 0 < out.length) :
    ∃ filled listed, hxGetHistory url out state.db = (.ok filled, state.db) ∧
      List.Forall₂ Holds filled listed ∧
      FirstOf out.length (fun stored => stored ∈ state.log ∧
        urlNormalizeSurt stored.1.url uriMax = .ok surt) Stored.Later listed := by
  obtain ⟨all, keys, members, sorted⟩ := exists_surt_listing recorded surt
  obtain ⟨filled, done, holds⟩ := historyLoop_of_recorded recorded surt
    (fun stored inAll => ((members stored).mp inAll).1) out
  refine ⟨resMergeCommonContent filled, all.take out.length, ?_, ?_, ?_⟩
  · rw [hxGetHistory, Txn.assert_bind room, accepted, Txn.bind_of_ok (Txn.call_apply _ _),
      Txn.keysr_bind, ← keys, Txn.bind_of_ok done, Txn.pure_apply]
  · exact forall₂_mergeCommonContent (fun _ _ _ _ held => ⟨held.time, held.id, held.url,
      held.status, held.type, held.length, held.digests⟩) holds
  · have first := firstOf_take_filter sorted (fun _ => true) out.length
    rw [List.filter_true] at first
    exact first.congr fun stored => by rw [members, and_iff_left rfl]

/-- **The history of a URL over the API.** The body is for the latest thirty of the stored
responses whose URL has the SURT of this one, latest first. It is read as the array of their
values exactly when all of them are printable. -/
theorem apiHistory_reads {state : Recording} (reached : recording.Reaches Machine.anyStep state)
    (stack : Stack) {url surt : Str} (accepted : urlNormalizeSurt url uriMax = .ok surt) :
    ∃ text listed, apiHistory stack url state.db = (.ok text, state.db) ∧
      (Json.read text = some (.array (listed.map fun stored => responseJson stored.1)) ↔
        ∀ stored ∈ listed, Printable stored.1) ∧
      FirstOf configApiHistoryMax (fun stored => stored ∈ state.log ∧
        urlNormalizeSurt stored.1.url uriMax = .ok surt) Stored.Later listed := by
  obtain ⟨parsed, parse, -⟩ := Result.bind_eq_ok.mp accepted
  obtain ⟨filled, listed, read, holds, first⟩ := hxGetHistory_listed (recorded_of_reaches reached)
    accepted (show 0 < (List.replicate configApiHistoryMax Response.blank).length by decide)
  obtain ⟨text, printed, reads⟩ := responseList_reads stack holds
  refine ⟨text, listed, ?_, reads, first⟩
  rw [apiHistory, parse, Txn.bind_of_ok (Txn.call_apply _ _), Txn.bind_of_ok read, printed,
    Txn.call_apply]

theorem Response.printable_sample : Printable Response.sample where
  url := by decide
  type := by decide
  time := by decide
  length := by decide
  digests algo := by cases algo <;> decide

/-- The history of the sample. -/
theorem apiHistory_reads_sample : ∃ (state : Recording) (text : Str) (listed : List Stored),
    state.log = [(.sample, 4), (.sample, 3)] ∧
    apiHistory (fun _ => 0) Response.sample.url state.db = (.ok text, state.db) ∧
    Json.read text = some (.array (listed.map fun stored => responseJson stored.1)) := by
  have accepted : urlNormalizeSurt Response.sample.url uriMax = .ok "http://(b,a,)/".toList := by
    decide +kernel
  obtain ⟨state, reached, logged⟩ := exists_recording_samples
  obtain ⟨text, listed, done, reads, first⟩ := apiHistory_reads reached (fun _ => 0) accepted
  refine ⟨state, text, listed, logged, done, reads.mpr fun stored member => ?_⟩
  have inLog := (first.sound stored member).1
  rw [logged] at inLog
  rcases List.mem_pair.mp inLog with rfl | rfl
  · exact Response.printable_sample
  · exact Response.printable_sample

/-- **The sources of a hash over the API.** For a link with a known algorithm the body is for the
first thirty of the stored responses that have a digest beginning with the hash, in the order of
the digests. It is read as the array of their values exactly when all of them are printable. -/
theorem apiSources_reads {state : Recording} (reached : recording.Reaches Machine.anyStep state)
    (stack : Stack) {hash : Str} {obj : HashUri} {algo : HashAlgo}
    (parse : hashUriParse stack hash = .ok obj) (known : obj.algo = some algo) :
    ∃ text listed, apiSources stack hash state.db = (.ok text, state.db) ∧
      (Json.read text = some (.array (listed.map fun stored => responseJson stored.1)) ↔
        ∀ stored ∈ listed, Printable stored.1) ∧
      listed.Nodup ∧
      FirstOf configApiSourcesMax (fun stored => stored ∈ state.log ∧
        HasDigest algo obj.buf stored) (Ahead algo) listed := by
  obtain ⟨filled, listed, done, slots, -, first⟩ :=
    sourcesLoop_firstOf (recorded_of_reaches reached) algo obj.buf
      (List.replicate configApiSourcesMax Response.blank)
  have holds : List.Forall₂ Holds (resMergeCommonUrls filled) listed :=
    (lists_mergeCommonUrls slots).imp fun _ _ lists => lists.toHolds
  obtain ⟨text, printed, reads⟩ := responseList_reads stack holds
  refine ⟨text, listed, ?_, reads, first.nodup Ahead.asymm, first⟩
  rw [apiSources, parse, Txn.bind_of_ok (Txn.call_apply _ _),
    Txn.bind_of_ok (hxGetSources_of_done known (by decide) done), printed, Txn.call_apply]

/-- The sample is asked for by one byte of its digest. -/
theorem apiSources_reads_sample : ∃ (state : Recording) (text : Str) (listed : List Stored),
    state.log = [(.sample, 3)] ∧
    apiSources (fun _ => 0) (linkText .linkPrefix .md5 [1]) state.db = (.ok text, state.db) ∧
    Json.read text = some (.array (listed.map fun stored => responseJson stored.1)) := by
  obtain ⟨state, reached, logged⟩ := exists_recording_sample
  obtain ⟨text, listed, done, reads, -, first⟩ := apiSources_reads reached (fun _ => 0)
    (hashUriParse_linkText (fun _ => 0) (show .linkPrefix ∈ digitLinkTypes by decide) .md5 [1]) rfl
  refine ⟨state, text, listed, logged, done, reads.mpr fun stored member => ?_⟩
  have inLog := (first.sound stored member).1
  rw [logged] at inLog
  rw [List.mem_singleton.mp inLog]
  exact Response.printable_sample

end HashArchive.Api
