import HashArchive.Db.Agreement
import HashArchive.Util.HashUri

/-!
# Reading responses back

`hx_get_latest`, `hx_get_history` and `hx_get_sources` of `db.c` walk an index
table downwards and fetch each response that a key of it names. The caller passes
an array of slots; the functions give the slots that were filled, linked where
they belong together.

When the tables agree, no fetch comes back empty: a history is read for every URL
that has a SURT (`hxGetHistory_of_agree`), and the sources of a hash are always
read (`hxGetSources_of_agree`).
-/

set_option autoImplicit false

namespace HashArchive.Db

open Hash Url

/-! ## Merging -/

/-- `res_content_eq`, of two different slots. -/
def resContentEq (a b : Response) : Bool :=
  -- Don't merge responses that aren't "OK".
  if a.status ≠ 200 ∨ b.status ≠ 200 then false
  else
    let len := fun algo => min (a.digests algo).length (b.digests algo).length
    -- We only compare the prefix.
    HashAlgo.all.all (fun algo => (a.digests algo).take (len algo) = (b.digests algo).take (len algo)) &&
      HashAlgo.all.any fun algo => 12 ≤ len algo

/-- `responses[before].next = &responses[after]`, and back. -/
def linkResponses (responses : List Response) (before after : ℕ) : List Response :=
  (responses.modify before fun res => { res with next := some after }).modify after
    fun res => { res with prev := some before }

/-- `res_merge_common_content`. -/
def resMergeCommonContent (responses : List Response) : List Response :=
  (List.range (responses.length - 1)).foldl
    (fun responses i =>
      match responses[i]?, responses[i + 1]? with
      | some a, some b => if resContentEq a b then linkResponses responses i (i + 1) else responses
      | _, _ => responses)
    responses

/-- The inner loop of `res_merge_common_urls`, downwards from `j`. -/
def resMergeCommonUrl (responses : List Response) (i : ℕ) : ℕ → List Response
  | 0 => responses
  | j + 1 =>
    match responses[j]?, responses[i]? with
    | some a, some b =>
      if a.next ≠ none then resMergeCommonUrl responses i j
      else if a.url ≠ b.url then resMergeCommonUrl responses i j
      else linkResponses responses j i
    | _, _ => responses

/-- `res_merge_common_urls`. -/
def resMergeCommonUrls (responses : List Response) : List Response :=
  (List.range responses.length).foldl (fun responses i => resMergeCommonUrl responses i i) responses

/-! ## The functions -/

/-- `timeidcmp`. -/
def timeidcmp (t1 i1 t2 i2 : ℕ) : ℤ :=
  if t1 > t2 then 1
  else if t1 < t2 then -1
  else if i1 > i2 then 1
  else if i1 < i2 then -1
  else 0

/-- `HX_RES_LATEST`. -/
def hxResLatest : ℕ := 1

/-- `hx_get_latest`. -/
def hxGetLatest (url : Str) : DbTxn (ℕ × ℕ) := do
  let surt ← Txn.call (urlNormalizeSurt url uriMax)
  match ← Txn.kvsLastr (urlSurtAndTimeIDRange1 surt) with
  | none => Txn.call (.error (.code .kvsNotfound))
  | some latestKey => do
    let (_, time, id) ← Txn.call (urlSurtAndTimeIDKeyUnpack latestKey)
    pure (time, id)

/-- A response is fetched into a slot. -/
def getResponse (slot : Response) (time id : ℕ) : DbTxn Response := do
  let resVal ← Txn.kvsGet (.timeIDToResponse time id)
  Txn.call (timeIDToResponseValUnpack resVal { slot with time := time, id := id })

/-- The loop of `hx_get_history`. -/
def historyLoop : List Response → List Key → DbTxn (List Response)
  | [], _ => pure []
  | _ :: _, [] => pure []
  | slot :: slots, key :: keys => do
    let (_, time, id) ← Txn.call (urlSurtAndTimeIDKeyUnpack key)
    let res ← getResponse slot time id
    let rest ← historyLoop slots keys
    pure (res :: rest)

/-- `hx_get_history`, into the slots of `out`. -/
def hxGetHistory (url : Str) (out : List Response) : DbTxn (List Response) := do
  Txn.call (assertThat (out.length > 0))
  let surt ← Txn.call (urlNormalizeSurt url uriMax)
  let keys ← Txn.kvsKeysr (urlSurtAndTimeIDRange1 surt)
  let filled ← historyLoop out keys
  pure (resMergeCommonContent filled)

/-- A source that is the latest response for its URL is marked. -/
def markLatest (res : Response) : DbTxn Response := do
  let (ltime, lid) ← hxGetLatest res.url
  let x := timeidcmp ltime lid res.time res.id
  Txn.call (assertThat (x ≥ 0))
  pure (if x = 0 then { res with flags := res.flags ||| hxResLatest } else res)

/-- The index is truncated, so it can return spurious matches. -/
def digestMatches (algo : HashAlgo) (buf : List UInt8) (res : Response) : Bool :=
  buf.length ≤ (res.digests algo).length && (res.digests algo).take buf.length == buf

/-- The loop of `hx_get_sources`. A response that does not match leaves its slot to
the next one. -/
def sourcesLoop (algo : HashAlgo) (buf : List UInt8) :
    List Response → List Key → DbTxn (List Response)
  | [], _ => pure []
  | _ :: _, [] => pure []
  | slot :: slots, key :: keys => do
    let (_, _, time, id) ← Txn.call (algoHashAndTimeIDKeyUnpack key)
    let res ← getResponse { slot with flags := 0 } time id
    if digestMatches algo buf res then
      let marked ← markLatest res
      let rest ← sourcesLoop algo buf slots keys
      pure (marked :: rest)
    else sourcesLoop algo buf (res :: slots) keys

/-- `hx_get_sources`, into the slots of `out`. No table has the number of an
unknown algorithm. -/
def hxGetSources (obj : HashUri) (out : List Response) : DbTxn (List Response) := do
  Txn.call (assertThat (out.length > 0))
  match obj.algo with
  | none => pure []
  | some algo => do
    let keys ← Txn.kvsKeysr (algoHashAndTimeIDRange2 algo obj.buf)
    let filled ← sourcesLoop algo obj.buf out keys
    pure (resMergeCommonUrls filled)

/-! ## When the tables agree -/

/-- A read keeps the time and the id of its slot. -/
theorem unpack_time_id {val : List Field} {out read : Response}
    (unpacked : timeIDToResponseValUnpack val out = .ok read) :
    read.time = out.time ∧ read.id = out.id := by
  unfold timeIDToResponseValUnpack at unpacked
  split at unpacked
  · obtain ⟨digests, -, same⟩ := Result.bind_eq_ok.mp unpacked
    cases same
    exact ⟨rfl, rfl⟩
  · cases unpacked

section Agree

variable {db : Database} (agree : TablesAgree db)
include agree

/-- The response that a key points to is read. -/
theorem getResponse_of_agree {time id : ℕ} (held : Key.timeIDToResponse time id ∈ db)
    (slot : Response) : ∃ res, getResponse slot time id db = (.ok res, db) ∧ res.time = time ∧
      res.id = id ∧ Stores db time id res.url res.digests := by
  obtain ⟨url, digests, stores⟩ := agree.decodes held
  obtain ⟨val, lookup, decodes⟩ := stores
  obtain ⟨res, unpacked, rfl, rfl⟩ := decodes { slot with time := time, id := id }
  have got : Txn.kvsGet (.timeIDToResponse time id) db = (.ok val, db) := by
    simp only [Txn.kvsGet, lookup]
  refine ⟨res, ?_, (unpack_time_id unpacked).1, (unpack_time_id unpacked).2, val, lookup, decodes⟩
  rw [getResponse, Txn.bind_of_ok got, unpacked, Txn.call_apply]

/-- The latest response for the URL of a response is found, and is not earlier. -/
theorem hxGetLatest_of_agree {time id : ℕ} {url : Str} {digests : HashAlgo → List UInt8}
    (stores : Stores db time id url digests) : ∃ ltime lid,
      hxGetLatest url db = (.ok (ltime, lid), db) ∧ ¬ timeidcmp ltime lid time id < 0 := by
  obtain ⟨surt, normalized, keys⟩ := agree.urlKey stores
  have held : Key.urlSurtAndTimeID surt time id ∈ db := (keys surt).mpr rfl
  cases latest : db.lastWithin (urlSurtAndTimeIDRange1 surt) with
  | none =>
      exact absurd (urlSurtAndTimeIDRange1_iff.mpr ⟨time, id, rfl⟩)
        (Store.lastWithin_eq_none_iff.mp latest _ held)
  | some latestKey =>
      obtain ⟨⟨-, inRange⟩, greatest⟩ := Store.lastWithin_eq_some_iff.mp latest
      obtain ⟨ltime, lid, rfl⟩ := urlSurtAndTimeIDRange1_iff.mp inRange
      have notLess := not_lt.mpr (greatest _ held (urlSurtAndTimeIDRange1_iff.mpr ⟨time, id, rfl⟩))
      rw [Key.urlSurtAndTimeID_lt_iff] at notLess
      refine ⟨ltime, lid, ?_, ?_⟩
      · rw [hxGetLatest, normalized, Txn.bind_of_ok (Txn.call_apply _ _), Txn.lastr_bind, latest]
        rfl
      · unfold timeidcmp
        split_ifs <;> simp <;> omega

/-- **The loop of a history reads every response it comes to.** -/
theorem historyLoop_of_agree {surt : Str} {keys : List Key}
    (indexed : ∀ key ∈ keys, key ∈ db ∧ urlSurtAndTimeIDRange1 surt key) (slots : List Response) :
    ∃ filled, historyLoop slots keys db = (.ok filled, db) := by
  induction keys generalizing slots with
  | nil => cases slots <;> exact ⟨[], rfl⟩
  | cons key keys ih =>
      cases slots with
      | nil => exact ⟨[], rfl⟩
      | cons slot slots =>
          obtain ⟨⟨held, inRange⟩, later⟩ := List.forall_mem_cons.mp indexed
          obtain ⟨time, id, rfl⟩ := urlSurtAndTimeIDRange1_iff.mp inRange
          obtain ⟨res, got, -⟩ := getResponse_of_agree agree (agree.urlStored held) slot
          obtain ⟨rest, filled⟩ := ih later slots
          have unpacked : Txn.call (urlSurtAndTimeIDKeyUnpack (.urlSurtAndTimeID surt time id)) db =
              (.ok (surt, time, id), db) := rfl
          refine ⟨res :: rest, ?_⟩
          simp only [historyLoop, Txn.bind_of_ok unpacked, Txn.bind_of_ok got,
            Txn.bind_of_ok filled, Txn.pure_apply]

/-- **A history is read for every URL that has a SURT.** -/
theorem hxGetHistory_of_agree {url surt : Str} (normalized : urlNormalizeSurt url uriMax = .ok surt)
    {out : List Response} (room : 0 < out.length) :
    ∃ filled, hxGetHistory url out db = (.ok filled, db) := by
  obtain ⟨filled, done⟩ := historyLoop_of_agree agree (fun key => Store.mem_descending.mp) out
  refine ⟨resMergeCommonContent filled, ?_⟩
  rw [hxGetHistory, Txn.assert_bind room, normalized, Txn.bind_of_ok (Txn.call_apply _ _),
    Txn.keysr_bind, Txn.bind_of_ok done, Txn.pure_apply]

theorem markLatest_of_agree {res : Response} (stores : Stores db res.time res.id res.url res.digests) :
    ∃ marked, markLatest res db = (.ok marked, db) := by
  obtain ⟨ltime, lid, latest, notEarlier⟩ := hxGetLatest_of_agree agree stores
  simp only [markLatest, Txn.bind_of_ok latest, Txn.assert_bind (not_lt.mp notEarlier),
    Txn.pure_apply]
  exact ⟨_, rfl⟩

/-- **The loop over the sources reads every response it comes to.** -/
theorem sourcesLoop_of_agree {algo : HashAlgo} {hash buf : List UInt8} {keys : List Key}
    (indexed : ∀ key ∈ keys, key ∈ db ∧ algoHashAndTimeIDRange2 algo hash key)
    (slots : List Response) : ∃ filled, sourcesLoop algo buf slots keys db = (.ok filled, db) := by
  induction keys generalizing slots with
  | nil => cases slots <;> exact ⟨[], rfl⟩
  | cons key keys ih =>
      cases slots with
      | nil => exact ⟨[], rfl⟩
      | cons slot slots =>
          obtain ⟨⟨held, inRange⟩, later⟩ := List.forall_mem_cons.mp indexed
          obtain ⟨held8, time, id, rfl, -⟩ := algoHashAndTimeIDRange2_iff.mp inRange
          obtain ⟨res, got, rfl, rfl, stores⟩ :=
            getResponse_of_agree agree (agree.hashStored held) { slot with flags := 0 }
          have unpacked : Txn.call (algoHashAndTimeIDKeyUnpack
              (.algoHashAndTimeID algo held8 res.time res.id)) db =
                (.ok (algo, held8, res.time, res.id), db) := rfl
          simp only [sourcesLoop, Txn.bind_of_ok unpacked, Txn.bind_of_ok got]
          by_cases matching : digestMatches algo buf res = true
          · obtain ⟨marked, mark⟩ := markLatest_of_agree agree stores
            obtain ⟨rest, filled⟩ := ih later slots
            refine ⟨marked :: rest, ?_⟩
            rw [if_pos matching, Txn.bind_of_ok mark, Txn.bind_of_ok filled, Txn.pure_apply]
          · obtain ⟨rest, filled⟩ := ih later (res :: slots)
            exact ⟨rest, by rw [if_neg matching, filled]⟩

/-- **The sources of a hash are always read.** -/
theorem hxGetSources_of_agree (obj : HashUri) {out : List Response} (room : 0 < out.length) :
    ∃ filled, hxGetSources obj out db = (.ok filled, db) := by
  rw [hxGetSources, Txn.assert_bind room]
  cases obj.algo with
  | none => exact ⟨[], rfl⟩
  | some algo =>
      have indexed : ∀ key ∈ db.descending (algoHashAndTimeIDRange2 algo obj.buf),
          key ∈ db ∧ algoHashAndTimeIDRange2 algo obj.buf key := fun key => Store.mem_descending.mp
      obtain ⟨filled, done⟩ := sourcesLoop_of_agree agree indexed out
      refine ⟨resMergeCommonUrls filled, ?_⟩
      show (Txn.kvsKeysr (algoHashAndTimeIDRange2 algo obj.buf) >>= fun keys => _) db = _
      rw [Txn.keysr_bind, Txn.bind_of_ok done, Txn.pure_apply]

end Agree

/-- A history is refused with the error of its URL, or read. -/
theorem hxGetHistory_not_notfound {db : Database} (agree : TablesAgree db) (url : Str)
    (out : List Response) : (hxGetHistory url out db).1 ≠ .error (.code .kvsNotfound) := by
  by_cases room : 0 < out.length
  · cases normalized : urlNormalizeSurt url uriMax with
    | ok surt =>
        obtain ⟨filled, done⟩ := hxGetHistory_of_agree agree normalized room
        rw [done]
        simp
    | error failure =>
        rw [hxGetHistory, Txn.assert_bind room, normalized,
          Txn.bind_of_error (Txn.call_apply _ _)]
        rcases urlNormalizeSurt_error normalized with rfl | rfl <;> simp
  · rw [hxGetHistory, Txn.assert_bind_of_not room]
    simp

theorem hxGetSources_not_notfound {db : Database} (agree : TablesAgree db) (obj : HashUri)
    (out : List Response) : (hxGetSources obj out db).1 ≠ .error (.code .kvsNotfound) := by
  by_cases room : 0 < out.length
  · obtain ⟨filled, done⟩ := hxGetSources_of_agree agree obj room
    rw [done]
    simp
  · rw [hxGetSources, Txn.assert_bind_of_not room]
    simp

/-- **The response tables always agree.** After any transactions a stored response
has exactly one key of each kind, a key of an index table points to a stored
response it belongs to, and neither a history nor the sources of a hash ever come
to a response that is missing. -/
theorem archive_tables_agree {db : Database} (reached : archive.Reaches Machine.anyStep db) :
    (∀ time id, Key.timeIDToResponse time id ∈ db →
      ∃ url digests, Stores db time id url digests ∧
        (∃ surt, urlNormalizeSurt url uriMax = .ok surt ∧
          ∀ other, Key.urlSurtAndTimeID other time id ∈ db ↔ other = surt) ∧
        ∀ algo, digests algo ≠ [] →
          ∀ hash, Key.algoHashAndTimeID algo hash time id ∈ db ↔
            hash = (digests algo).take hxHashIndexLen) ∧
    (∀ surt time id, Key.urlSurtAndTimeID surt time id ∈ db →
      ∃ url digests, Stores db time id url digests ∧ urlNormalizeSurt url uriMax = .ok surt) ∧
    (∀ algo hash time id, Key.algoHashAndTimeID algo hash time id ∈ db →
      ∃ url digests, Stores db time id url digests ∧ hash.length = hxHashIndexLen ∧
        hash <+: digests algo) ∧
    (∀ url out, (hxGetHistory url out db).1 ≠ .error (.code .kvsNotfound)) ∧
    ∀ obj out, (hxGetSources obj out db).1 ≠ .error (.code .kvsNotfound) := by
  have agree := tablesAgree_of_reaches reached
  exact ⟨fun _ _ => agree.keys, fun _ _ _ => agree.urlPoints, fun _ _ _ _ => agree.hashPoints,
    hxGetHistory_not_notfound agree, hxGetSources_not_notfound agree⟩

/-- A response with one digest. -/
def Response.sample : Response := { Response.blank with
  time := 7
  url := strlcpy "http://a.b/".toList uriMax
  status := 200
  digests := fun algo => if algo = .md5 then List.replicate 16 1 else []
  url_lt := length_strlcpy_lt uriMax_pos }

/-- A transaction that adds a response, and adds it again in vain. -/
theorem archive_tables_agree_sample : ∃ db, archive.Reaches Machine.anyStep db ∧
    Key.timeIDToResponse 7 3 ∈ db ∧
    ∀ url out, (hxGetHistory url out db).1 ≠ .error (.code .kvsNotfound) := by
  have computed : ((archive.run Machine.anyStep archive.start
      [⟨[(.sample, 3), (.sample, 3)], true⟩]).map fun db =>
        decide (Key.timeIDToResponse 7 3 ∈ db)) = some true := by decide +kernel
  obtain ⟨db, reached, held⟩ := Machine.reaches_of_run computed
  exact ⟨db, reached, of_decide_eq_true held, (archive_tables_agree reached).2.2.2.1⟩

end HashArchive.Db
