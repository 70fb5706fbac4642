import HashArchive.Foundations.Attempts
import HashArchive.Util.Hasher
import HashArchive.Queue.System

/-!
# Fetching a URL

`url_fetch` asks for a URL and follows redirections, each in a new attempt of
`url_fetch_internal`. One response is filled over all attempts, and an error of any call
becomes its status.

What an attempt meets is an `Exchange`: the outcomes of the calls on its connection and of
its allocations. Nothing is assumed of them, except that a body comes to an end or to an
error at some time.

A response has either the status and the whole body of the last attempt, or a negative
status and no content (`urlFetch_one_shape`). An attempt that is followed by another one
therefore leaves nothing behind.
-/

set_option autoImplicit false

namespace HashArchive.Fetch

open Db Hash Url

/-- `REDIRECT_MAX`. -/
def redirectMax : ℕ := 5

/-- `USER_AGENT`. -/
def userAgent : Str := "Hash Archive (https://github.com/btrask/hash-archive)".toList

/-- `HX_ERR_REDIRECT`. -/
def hxErrRedirect : Rc := ⟨-12404, by decide⟩

/-- `URL_EPARSE`. -/
def urlEparse : Rc := ⟨-15801, by decide⟩

/-- `UV_EPROTONOSUPPORT`, on Linux. -/
def uvEprotonosupport : Rc := ⟨-93, by decide⟩

/-- `UV_EINVAL`, on Linux. -/
def uvEinval : Rc := ⟨-22, by decide⟩

/-! ## One attempt -/

/-- The headers of a response, as `HTTPHeadersGet` finds them. -/
abbrev Headers : Type := String → Option Str

/-- What an attempt meets. -/
structure Exchange where
  connect : (domain port : Str) → (secure : Bool) → Call Unit
  writeRequest : (path host : Str) → Call Unit
  writeHeader : (field : String) → (value : Str) → Call Unit
  beginBody : Call Unit
  finish : Call Unit
  /-- An HTTP status is not negative. -/
  readResponseStatus : Call ℕ
  readHeaders : Call Headers
  /-- The allocations of `hasher_create` that succeed. -/
  memory : Option HashAlgo → Bool
  /-- The outcomes of `HTTPConnectionReadBody`, of which there are finitely many. The buffer
  of every further call is empty. -/
  reads : List (Call (List UInt8))

/-- `URL_PATH_MAX`. -/
def urlPathMax : ℕ := 1023 + 1

/-- `send_get`. `url_parse` and `host_parse` only fail with `URL_EPARSE`. -/
def sendGet (exchange : Exchange) (url client : Str) : Call Unit := do
  let obj ← (urlParse url).mapError fun _ => urlEparse
  let host ← (hostParse obj.host).mapError fun _ => urlEparse
  let secure ←
    if obj.scheme = "http".toList then pure false
    else if obj.scheme = "https".toList then pure true
    else throw uvEprotonosupport
  let path := if obj.path = [] then "/".toList else obj.path
  let path := strlcat path obj.query urlPathMax
  exchange.connect host.domain host.port secure
  exchange.writeRequest path obj.host
  exchange.writeHeader "User-Agent" userAgent
  exchange.writeHeader "Referer" url
  exchange.writeHeader "X-Forwarded-For" client
  exchange.beginBody
  exchange.finish

/-- The calls of `url_fetch_internal` up to the headers. -/
def readHead (exchange : Exchange) (url client : Str) : Call (ℕ × Headers) := do
  sendGet exchange url client
  let status ← exchange.readResponseStatus
  let headers ← exchange.readHeaders
  return (status, headers)

/-- The location that a redirection leads to. -/
def location (status : ℕ) (headers : Headers) : Option Str :=
  if 300 ≤ status ∧ status < 400 then headers "Location" else none

variable {lib : HashLibrary}

/-- The loop of `url_fetch_internal` over the body; `length` is a `uint64_t`. -/
def readBody : List (Call (List UInt8)) → Hasher lib → ℕ → Call (Hasher lib × ℕ)
  | [], hasher, length => .ok (hasher, length)
  | .error rc :: _, _, _ => .error rc
  | .ok buf :: reads, hasher, length =>
    if buf = [] then .ok (hasher, length)
    else do
      let hasher ← hasherUpdate hasher buf
      readBody reads hasher ((length + buf.length) % 2 ^ 64)

/-- Stores the content type, if there is one. -/
def setType (res : Response) : Option Str → Response
  | none => res
  | some type =>
    { res with
      type := strlcpy type typeMax
      type_lt := length_strlcpy_lt (by decide) }

/-- The calls of `url_fetch_internal` from the content type on. -/
def readContent (lib : HashLibrary) (exchange : Exchange) (headers : Headers) (res : Response) :
    Call Unit × Response :=
  let res := setType res (headers "Content-Type")
  match hasherCreate lib exchange.memory hasherAlgosAll with
  | .error rc => (.error rc, res)
  | .ok hasher =>
    match readBody exchange.reads hasher 0 with
    | .error rc => (.error rc, res)
    | .ok (hasher, length) =>
      let res := { res with length := length }
      let digested := hasherDigests hasher
      (digested.1, { res with digests := digested.2 })

/-- `cleanup` of `url_fetch_internal`: an error is stored as the status. -/
def cleanup : Call Unit → Response → Response
  | .ok (), res => res
  | .error rc, res => { res with status := rc }

/-- `url_fetch_internal`: the URL and the response it leaves. It returns 0 in all cases. -/
def urlFetchInternal (lib : HashLibrary) (exchange : Exchange) (url client : Str)
    (res : Response) : Str × Response :=
  match readHead exchange url client with
  | .error rc => (url, cleanup (.error rc) res)
  | .ok (status, headers) =>
    let res := { res with status := status }
    match location status headers with
    | some loc => (strlcpy loc uriMax, cleanup (.error hxErrRedirect) res)
    | none =>
      let content := readContent lib exchange headers res
      (url, cleanup content.1 content.2)

/-! ## All attempts -/

/-- Where `url_fetch` is: the URL that comes next, the response, and the URLs that were
asked for. -/
structure Progress where
  url : Str
  res : Response
  asked : List Str

/-- The number of attempts. -/
def Progress.hops (progress : Progress) : ℕ := progress.asked.length

/-- The loop body of `url_fetch`. The number of an attempt selects what it meets. -/
def attempt (lib : HashLibrary) (world : ℕ → Exchange) (client : Str) (progress : Progress) :
    Progress :=
  let left := urlFetchInternal lib (world progress.hops) progress.url client progress.res
  ⟨left.1, left.2, progress.asked ++ [progress.url]⟩

/-- Whether the loop of `url_fetch` goes on. -/
def redirected (progress : Progress) : Bool := progress.res.status = hxErrRedirect

/-- The fields that `url_fetch` sets before the loop. -/
def preInitialized (now : ℕ) (url : Str) (out : Response) : Response :=
  { out with
    time := now
    url := strlcpy url uriMax
    status := 0
    type := []
    length := 0
    digests := fun _ => []
    url_lt := length_strlcpy_lt uriMax_pos
    type_lt := by decide }

/-- `url_fetch`, with the URLs it asks for. -/
def urlFetch (lib : HashLibrary) (world : ℕ → Exchange) (now : ℕ) (url : Option Str)
    (client : Str) (out : Response) : Call (Response × List Str) :=
  match url with
  | none => .error uvEinval
  | some url =>
    let start : Progress := ⟨strlcpy url uriMax, preInitialized now url out, []⟩
    let last := attempts (attempt lib world client) redirected redirectMax start
    .ok (last.res, last.asked)

/-! ## Results -/

/-- The reads give the chunks, and then an empty buffer. -/
def BodyEnds (reads : List (Call (List UInt8))) (chunks : List (List UInt8)) : Prop :=
  [] ∉ chunks ∧ ∃ rest, reads = chunks.map .ok ++ rest ∧ ∀ read ∈ rest.head?, read = .ok []

/-- The body of an attempt was read to its end: the response has the status of the attempt,
and the length (a `uint64_t`) and the digests of the body. -/
structure ReadToEnd (hash : (algo : HashAlgo) → List UInt8 → Digest algo) (exchange : Exchange)
    (res : Response) : Prop where
  status : ∃ status : ℕ, exchange.readResponseStatus = .ok status ∧ res.status = status
  content : ∃ chunks, BodyEnds exchange.reads chunks ∧
    res.length = (chunks.map List.length).sum % 2 ^ 64 ∧
    ∀ algo, (res.digests algo).length = algo.digestLen ∧
      res.digests algo = hash algo chunks.flatten

/-- There is neither a length nor a digest. -/
structure NoContent (res : Response) : Prop where
  length : res.length = 0
  digests : ∀ algo, res.digests algo = []

/-- An error without content. -/
structure Failed (res : Response) : Prop extends NoContent res where
  status : res.status < 0

/-- The server answers with a redirection. -/
def Redirects (exchange : Exchange) (url client : Str) : Prop :=
  ∃ status headers loc, readHead exchange url client = .ok (status, headers) ∧
    location status headers = some loc

/-- A response cannot be both. -/
theorem ReadToEnd.not_failed {hash : (algo : HashAlgo) → List UInt8 → Digest algo}
    {exchange : Exchange} {res : Response} (complete : ReadToEnd hash exchange res) :
    ¬ Failed res := by
  intro failed
  obtain ⟨status, -, stored⟩ := complete.status
  have negative : res.status < 0 := failed.status
  omega

/-! ## What one attempt leaves -/

section Attempt

variable {hash : (algo : HashAlgo) → List UInt8 → Digest algo} (computes : lib.Computes hash)

include computes in
/-- The hasher has taken the whole body, and its length is counted. -/
theorem readBody_eq_ok {reads : List (Call (List UInt8))} {hasher last : Hasher lib}
    {before : List (List UInt8)} {length total : ℕ} (absorbed : hasher.Absorbed before)
    (bounded : length < 2 ^ 64) (succeeded : readBody reads hasher length = .ok (last, total)) :
    ∃ chunks, BodyEnds reads chunks ∧ last.Absorbed (before ++ chunks) ∧
      total = (length + (chunks.map List.length).sum) % 2 ^ 64 := by
  induction reads generalizing hasher before length with
  | nil =>
      cases succeeded
      refine ⟨[], ⟨List.not_mem_nil, [], rfl, by simp⟩, ?_, ?_⟩
      · rwa [List.append_nil]
      · exact (Nat.mod_eq_of_lt bounded).symm
  | cons read reads ih =>
      cases read with
      | error rc => cases succeeded
      | ok buf =>
          simp only [readBody] at succeeded
          split at succeeded
          next nothing =>
            cases succeeded
            refine ⟨[], ⟨List.not_mem_nil, .ok buf :: reads, rfl, ?_⟩, ?_, ?_⟩
            · intro read first
              rw [← Option.some.inj first, nothing]
            · rwa [List.append_nil]
            · exact (Nat.mod_eq_of_lt bounded).symm
          next something =>
            obtain ⟨next, updated, taken⟩ := absorbed.hasherUpdate computes buf
            rw [updated] at succeeded
            obtain ⟨chunks, ⟨full, rest, split, ends⟩, given, counted⟩ :=
              ih taken (Nat.mod_lt _ (by decide)) succeeded
            refine ⟨buf :: chunks, ⟨?_, rest, ?_, ends⟩, ?_, ?_⟩
            · exact List.not_mem_cons_of_ne_of_not_mem (Ne.symm something) full
            · rw [split]
              rfl
            · rwa [List.append_assoc] at given
            · rw [counted, List.map_cons, List.sum_cons, Nat.mod_add_mod, Nat.add_assoc]

include computes in
/-- From the content type on, either the whole body is read or nothing of it is kept. -/
theorem readContent_outcome (exchange : Exchange) (headers : Headers) {res : Response}
    (empty : NoContent res) {outcome : Call Unit} {left : Response}
    (content : readContent lib exchange headers res = (outcome, left)) :
    (∃ rc, outcome = .error rc ∧ NoContent left) ∨
      outcome = .ok () ∧ left.status = res.status ∧
        ∃ chunks, BodyEnds exchange.reads chunks ∧
          left.length = (chunks.map List.length).sum % 2 ^ 64 ∧
          ∀ algo, (left.digests algo).length = algo.digestLen ∧
            left.digests algo = hash algo chunks.flatten := by
  have typed : NoContent (setType res (headers "Content-Type")) := by
    cases headers "Content-Type" <;> exact ⟨empty.length, empty.digests⟩
  have status : (setType res (headers "Content-Type")).status = res.status := by
    cases headers "Content-Type" <;> rfl
  unfold readContent at content
  cases created : hasherCreate lib exchange.memory hasherAlgosAll with
  | error rc =>
      rw [created] at content
      cases content
      exact .inl ⟨rc, rfl, typed⟩
  | ok hasher =>
      cases read : readBody exchange.reads hasher 0 with
      | error rc =>
          simp only [created, read] at content
          cases content
          exact .inl ⟨rc, rfl, typed⟩
      | ok last =>
          obtain ⟨last, total⟩ := last
          obtain ⟨chunks, body, taken, counted⟩ :=
            readBody_eq_ok computes (absorbed_of_hasherCreate created) (by decide) read
          simp only [created, read, taken.hasherDigests computes] at content
          cases content
          refine .inr ⟨rfl, status, chunks, body, ?_, fun algo => ⟨?_, rfl⟩⟩
          · rw [counted, Nat.zero_add]
          · exact (hash algo chunks.flatten).2

/-- The status of an attempt whose headers were read. -/
theorem status_of_readHead {exchange : Exchange} {url client : Str} {status : ℕ}
    {headers : Headers} (head : readHead exchange url client = .ok (status, headers)) :
    exchange.readResponseStatus = .ok status := by
  obtain ⟨_, -, answer⟩ := except_bind_eq_ok.mp head
  obtain ⟨answered, same, rest⟩ := except_bind_eq_ok.mp answer
  obtain ⟨read, -, done⟩ := except_bind_eq_ok.mp rest
  cases done
  exact same

include computes in
/-- An attempt on a response without content leaves one of the two shapes. -/
theorem urlFetchInternal_outcome (exchange : Exchange) (url client : Str) {res : Response}
    (empty : NoContent res) :
    ReadToEnd hash exchange (urlFetchInternal lib exchange url client res).2 ∨
      Failed (urlFetchInternal lib exchange url client res).2 := by
  unfold urlFetchInternal
  cases head : readHead exchange url client with
  | error rc => exact .inr ⟨⟨empty.length, empty.digests⟩, rc.2⟩
  | ok answer =>
      obtain ⟨status, headers⟩ := answer
      dsimp only
      cases location status headers with
      | some loc => exact .inr ⟨⟨empty.length, empty.digests⟩, hxErrRedirect.2⟩
      | none =>
          dsimp only
          have still : NoContent { res with status := (status : ℤ) } :=
            ⟨empty.length, empty.digests⟩
          cases content : readContent lib exchange headers { res with status := status } with
          | mk outcome left =>
              obtain ⟨rc, rfl, nothing⟩ | ⟨rfl, kept, body⟩ :=
                readContent_outcome computes exchange headers still content
              · exact .inr ⟨⟨nothing.length, nothing.digests⟩, rc.2⟩
              · exact .inl ⟨⟨status, status_of_readHead head, kept⟩, body⟩

end Attempt

theorem setType_frame (res : Response) (type : Option Str) :
    (setType res type).time = res.time ∧ (setType res type).url = res.url := by
  cases type <;> exact ⟨rfl, rfl⟩

theorem cleanup_frame (outcome : Call Unit) (res : Response) :
    (cleanup outcome res).time = res.time ∧ (cleanup outcome res).url = res.url := by
  cases outcome <;> exact ⟨rfl, rfl⟩

theorem readContent_frame (exchange : Exchange) (headers : Headers) (res : Response) :
    (readContent lib exchange headers res).2.time = res.time ∧
      (readContent lib exchange headers res).2.url = res.url := by
  have typed := setType_frame res (headers "Content-Type")
  unfold readContent
  cases hasherCreate lib exchange.memory hasherAlgosAll with
  | error rc => exact typed
  | ok hasher =>
      dsimp only
      cases readBody exchange.reads hasher 0 with
      | error rc => exact typed
      | ok last => exact typed

variable (lib) in
/-- An attempt changes neither the time nor the URL of the response. -/
theorem urlFetchInternal_frame (exchange : Exchange) (url client : Str) (res : Response) :
    (urlFetchInternal lib exchange url client res).2.time = res.time ∧
      (urlFetchInternal lib exchange url client res).2.url = res.url := by
  unfold urlFetchInternal
  cases readHead exchange url client with
  | error rc => exact ⟨rfl, rfl⟩
  | ok answer =>
      dsimp only
      cases location answer.1 answer.2 with
      | some loc => exact ⟨rfl, rfl⟩
      | none =>
          obtain ⟨time, kept⟩ := @readContent_frame lib exchange answer.2
            { res with status := answer.1 }
          exact ⟨(cleanup_frame _ _).1.trans time, (cleanup_frame _ _).2.trans kept⟩

/-- A redirection is stored as its error. -/
theorem Redirects.status_eq {exchange : Exchange} {url client : Str}
    (redirects : Redirects exchange url client) (res : Response) :
    (urlFetchInternal lib exchange url client res).2.status = hxErrRedirect := by
  obtain ⟨status, headers, loc, head, leads⟩ := redirects
  simp only [urlFetchInternal, head, leads]
  rfl

/-! ## What all attempts leave -/

/-- The time and the URL are those that were set before the loop. -/
structure Kept (now : ℕ) (url : Str) (progress : Progress) : Prop where
  time : progress.res.time = now
  url : progress.res.url = strlcpy url uriMax

/-- What the last attempt leaves. -/
structure Settled (hash : (algo : HashAlgo) → List UInt8 → Digest algo) (world : ℕ → Exchange)
    (client : Str) (progress : Progress) (earlier : List Str) (last : Str) : Prop where
  asked : progress.asked = earlier ++ [last]
  shape : ReadToEnd hash (world earlier.length) progress.res ∨ Failed progress.res
  redirects : Redirects (world earlier.length) last client → progress.res.status = hxErrRedirect

section Run

variable {hash : (algo : HashAlgo) → List UInt8 → Digest algo} {world : ℕ → Exchange}
  {client url : Str} {now : ℕ}

theorem settled_attempt (computes : lib.Computes hash) {progress : Progress}
    (empty : NoContent progress.res) :
    Settled hash world client (attempt lib world client progress) progress.asked progress.url where
  asked := rfl
  shape := urlFetchInternal_outcome computes _ progress.url client empty
  redirects := fun redirects => redirects.status_eq progress.res

/-- A response with the status of a redirection has no content. -/
theorem Settled.noContent {progress : Progress} {earlier : List Str} {last : Str}
    (settled : Settled hash world client progress earlier last)
    (again : redirected progress = true) : NoContent progress.res := by
  obtain complete | failed := settled.shape
  · obtain ⟨status, -, stored⟩ := complete.status
    have negative : progress.res.status = -12404 := of_decide_eq_true again
    omega
  · exact failed.toNoContent

/-- What `url_fetch` leaves after all attempts. -/
theorem settled_attempts (computes : lib.Computes hash) (out : Response) :
    ∃ earlier last, Settled hash world client (attempts (attempt lib world client) redirected
      redirectMax ⟨strlcpy url uriMax, preInitialized now url out, []⟩) earlier last := by
  apply @attempts_invariant Progress _ _ (fun progress => NoContent progress.res)
    fun progress => ∃ earlier last, Settled hash world client progress earlier last
  · intro progress empty
    exact ⟨progress.asked, progress.url, settled_attempt computes empty⟩
  · rintro progress ⟨earlier, last, settled⟩ again
    exact settled.noContent again
  · exact ⟨rfl, fun _ => rfl⟩

variable (lib world client url now) in
/-- The time and the URL stay. -/
theorem kept_attempts (out : Response) :
    Kept now url (attempts (attempt lib world client) redirected redirectMax
      ⟨strlcpy url uriMax, preInitialized now url out, []⟩) := by
  apply @attempts_invariant Progress _ _ (Kept now url) (Kept now url)
  · intro progress kept
    have frame := urlFetchInternal_frame lib (world progress.hops) progress.url client progress.res
    exact ⟨frame.1.trans kept.time, frame.2.trans kept.url⟩
  · exact fun _ kept _ => kept
  · exact ⟨rfl, rfl⟩

theorem hops_attempt (progress : Progress) :
    (attempt lib world client progress).hops = progress.hops + 1 := List.length_append

end Run

/-- **A fetch ends in one of two shapes.** At most `REDIRECT_MAX` URLs are asked for, and the
response keeps the URL that was requested. Either the body of the last attempt was read to
its end, and the response has the status of this attempt with the length and the digests of
this body; or the response has a negative status and no content. It has the status of a
redirection when the last attempt is redirected, which is only left so at the limit. -/
theorem urlFetch_one_shape {hash : (algo : HashAlgo) → List UInt8 → Digest algo}
    (computes : lib.Computes hash) (world : ℕ → Exchange) (now : ℕ) (url client : Str)
    (out : Response) :
    ∃ res earlier last,
      urlFetch lib world now (some url) client out = .ok (res, earlier ++ [last]) ∧
        earlier.length + 1 ≤ redirectMax ∧
        (url.length < uriMax → res.url = url) ∧
        Xor (ReadToEnd hash (world earlier.length) res) (Failed res) ∧
        (Redirects (world earlier.length) last client → res.status = hxErrRedirect) ∧
        (res.status = hxErrRedirect → earlier.length + 1 = redirectMax) := by
  let start : Progress := ⟨strlcpy url uriMax, preInitialized now url out, []⟩
  let final := attempts (attempt lib world client) redirected redirectMax start
  obtain ⟨earlier, last, asked, shape, redirects⟩ :
      ∃ earlier last, Settled hash world client final earlier last :=
    settled_attempts computes out
  have kept : Kept now url final := kept_attempts lib world client url now out
  have hops : final.hops = earlier.length + 1 := by
    rw [Progress.hops, asked, List.length_append]
    rfl
  have atMost : final.hops ≤ 0 + redirectMax :=
    count_attempts_le hops_attempt redirectMax start
  refine ⟨final.res, earlier, last, ?_, ?_, ?_, ?_, redirects, ?_⟩
  · rw [← asked]
    rfl
  · omega
  · intro fits
    rw [kept.url, strlcpy_of_length_lt fits]
  · rcases shape with complete | failed
    · exact .inl ⟨complete, complete.not_failed⟩
    · exact .inr ⟨failed, fun complete => complete.not_failed failed⟩
  · intro redirection
    have all : final.hops = 0 + redirectMax :=
      count_attempts_of_again hops_attempt redirectMax start (decide_eq_true redirection)
    omega

/-! ## The fetch of a worker -/

theorem eq_urlFetch {now : ℕ} {url : Str} {res : Response} (time : res.time = now)
    (kept : res.url = strlcpy url uriMax) :
    { res with id := 0, next := none, prev := none, flags := 0 } =
      Queue.urlFetch now url ⟨res.status, res.type, res.length, res.digests, res.type_lt⟩ := by
  simp only [Queue.urlFetch, time, kept]

/-- **The fetch of the queue**: the fields that `url_fetch` sets are those of a fetch at the
time, of the URL, with some content. -/
theorem urlFetch_eq_content {world : ℕ → Exchange} {now : ℕ} {url client : Str} {out : Response}
    {left : Response × List Str}
    (fetched : urlFetch lib world now (some url) client out = .ok left) :
    ∃ content, { left.1 with id := 0, next := none, prev := none, flags := 0 } =
      Queue.urlFetch now url content := by
  obtain ⟨time, kept⟩ := kept_attempts lib world client url now out
  cases fetched
  exact ⟨_, eq_urlFetch time kept⟩

/-! ## A redirection and a body -/

/-- The digest with the given number. -/
def digestOf (value : ℕ) (algo : HashAlgo) : Digest algo :=
  ⟨(List.range algo.digestLen).map fun i => UInt8.ofNat (value >>> (8 * (algo.digestLen - 1 - i))),
    by simp⟩

/-- The digests of `abc`, and zeros for all other texts. -/
def sampleHash (algo : HashAlgo) (text : List UInt8) : Digest algo :=
  digestOf (if text ≠ [0x61, 0x62, 0x63] then 0 else
    match algo with
    | .md5 => 0x900150983cd24fb0d6963f7d28e17f72
    | .sha1 => 0xa9993e364706816aba3e25717850c26c9cd0d89d
    | .sha256 => 0xba7816bf8f01cfea414140de5dae2223b00361a396177a9cb410ff61f20015ad
    | .sha384 =>
      0xcb00753f45a35e8bb5a03d699ac65007 * 2 ^ 256 +
        0x272c32ab0eded1631a8b605a43ff5bed8086072ba1e7cc2358baeca134c825a7
    | .sha512 =>
      0xddaf35a193617abacc417349ae20413112e6fa4e89a97ea20a9eeee64b55d39a * 2 ^ 256 +
        0x2192992a274fc1a836ba3c23a3feebbd454d4423643ce80e2a9ac94fa54ca49f) algo

/-- A library whose contexts hold the text. -/
def sampleLibrary : HashLibrary where
  Ctx := fun _ => List UInt8
  init := fun _ => .ok []
  update := fun ctx buf => .ok (ctx ++ buf)
  final := fun ctx => .ok (sampleHash _ ctx)

theorem sampleLibrary_computes : sampleLibrary.Computes sampleHash := by
  have fed (ctx : List UInt8) (pieces : List (List UInt8)) :
      pieces.foldlM (fun ctx buf => (.ok (ctx ++ buf) : Call (List UInt8))) ctx =
        .ok (ctx ++ pieces.flatten) := by
    induction pieces generalizing ctx with
    | nil => simp; rfl
    | cons buf pieces ih => exact (ih (ctx ++ buf)).trans (by simp)
  intro algo ctx pieces begun
  cases begun
  exact congrArg (· >>= sampleLibrary.final) (fed [] pieces)

/-- A server that redirects the first request and answers the others with `abc`. -/
def sampleWorld (hop : ℕ) : Exchange where
  connect := fun _ _ _ => .ok ()
  writeRequest := fun _ _ => .ok ()
  writeHeader := fun _ _ => .ok ()
  beginBody := .ok ()
  finish := .ok ()
  readResponseStatus := .ok (if hop = 0 then 302 else 200)
  readHeaders := .ok fun field =>
    if hop = 0 ∧ field = "Location" then some "https://example.org/abc".toList else none
  memory := fun _ => true
  reads := [.ok [0x61], .ok [0x62, 0x63], .ok []]

theorem urlFetch_one_shape_sample :
    (∃ res earlier last,
      urlFetch sampleLibrary sampleWorld 7 (some "http://example.com/".toList) [] Response.blank =
          .ok (res, earlier ++ [last]) ∧
        earlier.length + 1 ≤ redirectMax ∧
        ("http://example.com/".toList.length < uriMax → res.url = "http://example.com/".toList) ∧
        Xor (ReadToEnd sampleHash (sampleWorld earlier.length) res) (Failed res) ∧
        (Redirects (sampleWorld earlier.length) last [] → res.status = hxErrRedirect) ∧
        (res.status = hxErrRedirect → earlier.length + 1 = redirectMax)) ∧
      (urlFetch sampleLibrary sampleWorld 7 (some "http://example.com/".toList) []
        Response.blank).toOption.map (fun left => (left.1.status, left.1.length, left.2)) =
          some (200, 3, ["http://example.com/".toList, "https://example.org/abc".toList]) :=
  ⟨urlFetch_one_shape sampleLibrary_computes sampleWorld 7 _ [] Response.blank,
    by decide +kernel⟩

end HashArchive.Fetch
