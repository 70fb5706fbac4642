import HashArchive.Api.Json
import HashArchive.Pages.History
import HashArchive.Queue.TimeWindows
import HashArchive.Server.HostCheck
import HashArchive.Util.HashUriVariants
import HashArchive.Util.Path

/-!
# The listener

`listener` of `server.c` checks the host of a request and offers the request to a list of
handlers, one after the other; a handler that is not meant returns -1. A handler sends an
answer by itself or returns a status, which `listener` then sends.

A request reads the database at more than one moment: `page_history` calls `queue_add`
after it has read the history and sent its page, and `api_enqueue` reads the response that
it has waited for. `Moments` says what the database is each time.

`uripathcmp` is called with its arguments exchanged, so the index, the lookup form and the
critical page are not found at a URI with a query, and an empty URI aborts the server.

The order of the handlers makes no difference, but for the last one (`listener_of_perm`).
A request is answered once, unless the URL of a history page was crawled between the two
moments: then `queue_add` fails, and its code is sent after the page as if nothing had been
sent (`answeredOnce_iff`). What can keep a request from an answer is in `Served`.
-/

set_option autoImplicit false

namespace HashArchive.Server

open Api Db Hash Pages Queue Url Yajl

/-! ## Requests and answers -/

/-- `HTTPMethod`. -/
inductive Method where
  | get
  | head
  | post
  | other
deriving DecidableEq, Repr

/-- What is read of a request. The field `str` of a form is read from the body. -/
structure Request where
  method : Method
  URI : Str
  host : Str
  str : Call (Option Str)

/-- A negative return code. -/
inductive ReturnCode where
  | code (rc : ErrorCode)
  | rc (rc : Rc)
deriving DecidableEq

/-- What is sent on a connection. -/
inductive Answer where
  | status (code : ℕ)
  | redirect (location : Str)
  | index
  | critical
  | parseError (query : Str)
  | history (page : HistoryPage)
  | sources (entries : List SourceEntry)
  | json (body : Str)
  | dump (start duration : ℕ)
  | file (path : Str)

/-- What `HTTPConnectionSendFile` does. A file that it fails for is not sent. -/
inductive SendFile where
  | sent
  | uvEpipe
  | uvEisdir
  | failed (rc : Rc)

/-- What `server.c` calls of its libraries. -/
structure Library where
  httpError : ReturnCode → ℕ
  sendFile : Str → SendFile

/-- When a request reads the database, calls `queue_add`, and reads what it has waited for.
Waiting ends after some timeouts, and `waited` is false when it failed. `slot` is what is in the
local response of `api_enqueue` before it is read. -/
structure Moments where
  now : ℕ
  newId : ℕ
  read : Database
  enqueue : Database
  timeouts : ℕ
  waited : Bool
  after : Database
  slot : Response

/-- What a function has sent, and what it returned. -/
structure Outcome where
  answers : List Answer
  rc : Except ReturnCode Unit

/-- What a handler has sent, and the status it returned. -/
abbrev Handled : Type := Except Fault (List Answer × ℕ)

/-- A call before anything is sent. -/
def beforeSending {α : Type} (call : Result α) (next : α → Except Fault Outcome) :
    Except Fault Outcome :=
  match call with
  | .ok value => next value
  | .error (.code rc) => .ok ⟨[], .error (.code rc)⟩
  | .error (.fault fault) => .error fault

/-! ## Scanning -/

/-- `isspace`. -/
def isWhite (c : Char) : Bool := c == ' ' || (9 ≤ c.toNat && c.toNat ≤ 13)

/-- What `sscanf` stores for a format of a literal and `%1023s`. -/
def scanString (literal : Str) (input : Str) : Str :=
  if literal <+: input then
    (((input.drop literal.length).dropWhile isWhite).take 1023).takeWhile (!isWhite ·)
  else []

/-- `%llu`. -/
def scanLlu (input : Str) : Option (ℕ × Str) :=
  let input := input.dropWhile isWhite
  let unsigned := if input.head? ∈ [some '-', some '+'] then input.tail else input
  let digits := unsigned.takeWhile Char.isDigit
  let value := Nat.ofDigitChars 10 digits 0
  if digits = [] then none
  else some (
    if value ≥ 2 ^ 64 then 2 ^ 64 - 1
    else if input.head? = some '-' then (2 ^ 64 - value) % 2 ^ 64
    else value, unsigned.dropWhile Char.isDigit)

/-- `sscanf(URI, "/api/dump/?start=%llu&duration=%llu", &start, &duration)`. -/
def scanDump (URI : Str) : ℕ × ℕ :=
  if "/api/dump/?start=".toList <+: URI then
    match scanLlu (URI.drop "/api/dump/?start=".length) with
    | none => (0, 0)
    | some (start, rest) =>
      if "&duration=".toList <+: rest then
        match scanLlu (rest.drop "&duration=".length) with
        | none => (start, 0)
        | some (duration, _) => (start, duration)
      else (start, 0)
  else (0, 0)

/-- Whether `uripathcmp` is 0. -/
def uripathcmp (literal input : Str) : Except Fault Bool :=
  if literal.length = 0 then .error .assertion
  else .ok (literal <+: input ∧ input[literal.length]? ∈ [none, some '?'])

/-! ## Pages -/

/-- `queue_add`. -/
def queueAdd (now newId : ℕ) (url : Str) (db : Database) : Result Unit := do
  assertThat (now ≠ 0)
  let surt ← urlNormalizeSurt url uriMax
  let _ ← (queueAddTxn surt ⟨now, newId, url, []⟩ db).1
  .ok ()

/-- `page_index`. -/
def pageIndex : Except Fault Outcome := .ok ⟨[.index], .ok ()⟩

/-- `page_critical`. -/
def pageCritical : Except Fault Outcome := .ok ⟨[.critical], .ok ()⟩

/-- `page_history`. What `queue_add` returns is returned after the page was sent. -/
def pageHistoryOutcome (m : Moments) (url : Str) : Except Fault Outcome :=
  beforeSending (pageHistory m.now url m.read).1 fun page =>
    if page.outdated then
      match queueAdd m.now m.newId url m.enqueue with
      | .ok () => .ok ⟨[.history page], .ok ()⟩
      | .error (.code rc) => .ok ⟨[.history page], .error (.code rc)⟩
      | .error (.fault fault) => .error fault
    else .ok ⟨[.history page], .ok ()⟩

/-- The multihash that `page_sources` puts in a link. -/
def sourcesMultihash (stack : Stack) (obj : HashUri) : Result Str :=
  match hashUriVariant stack obj .linkMultihash uriMax with
  | .error (.code .hashEnotsup) => .ok []
  | outcome => outcome

/-- `page_sources`. -/
def pageSourcesOutcome (stack : Stack) (m : Moments) (hash : Str) : Except Fault Outcome :=
  beforeSending (hashUriParse stack hash) fun obj =>
  beforeSending (pageSources obj m.read).1 fun entries =>
  beforeSending (hexEncode obj.buf (stack.uninitializedChars (hashDigestMax * 2 + 1))
    (hashDigestMax * 2 + 1)) fun _ =>
  beforeSending (sourcesMultihash stack obj) fun _ => .ok ⟨[.sources entries], .ok ()⟩

/-- `parse_error`. -/
def parseError (query : Str) : Except Fault Outcome := .ok ⟨[.parseError query], .ok ()⟩

/-- The body of an answer of `api_enqueue`, which waits unless the URL is `existing`. A line
break is sent for each timeout. -/
def enqueueBody (stack : Stack) (m : Moments) (existing : Bool) (url : Str) : Result Str :=
  let waiting := if existing then [] else List.replicate m.timeouts '\n'
  match (hxGetHistory url [m.slot] m.after).1 with
  | .ok [res] =>
    if existing ∨ m.waited then do
      let (_, json) ← resJson stack res (Gen.alloc true false)
      .ok (waiting ++ json.printed)
    else .ok waiting
  | .ok _ => .ok waiting
  | .error (.code _) => .ok waiting
  | .error (.fault fault) => .error (.fault fault)

/-- `api_enqueue`. -/
def apiEnqueue (stack : Stack) (m : Moments) (url : Str) : Except Fault Outcome :=
  match queueAdd m.now m.newId url m.enqueue with
  | .ok () => beforeSending (enqueueBody stack m false url) fun body => .ok ⟨[.json body], .ok ()⟩
  | .error (.code .kvsKeyexist) =>
    beforeSending (enqueueBody stack m true url) fun body => .ok ⟨[.json body], .ok ()⟩
  | .error (.code rc) => .ok ⟨[], .error (.code rc)⟩
  | .error (.fault fault) => .error fault

/-- `api_history` and `api_sources`: an answer when there is no error. -/
def apiOutcome (body : Result Str) : Except Fault Outcome :=
  beforeSending body fun body => .ok ⟨[.json body], .ok ()⟩

/-! ## Handlers -/

section Handlers

variable (library : Library) (stack : Stack) (m : Moments) (request : Request)

/-- `hx_httperr`. -/
def hxHttperr : ReturnCode → ℕ
  | .code .hashEparse => 400
  | .code .hashEnotsup => 500
  | .code .urlEparse => 400
  | rc => library.httpError rc

/-- What a handler returns that has called a page. -/
def answered (outcome : Except Fault Outcome) : Handled := do
  let outcome ← outcome
  match outcome.rc with
  | .ok () => .ok (outcome.answers, 0)
  | .error rc => .ok (outcome.answers, hxHttperr library rc)

/-- What a handler returns that shows where a query is wrong. -/
def answeredOr (eparse : ErrorCode) (query : Str) (outcome : Except Fault Outcome) : Handled := do
  let outcome ← outcome
  if outcome.rc = .error (.code eparse) then do
    let error ← parseError query
    answered library (.ok { error with answers := outcome.answers ++ error.answers })
  else answered library (.ok outcome)

/-- The method is one that only reads. -/
def reads : Bool := request.method = .get ∨ request.method = .head

/-- What a handler returns that is meant for one path. The path comes second: the URI is what
`uripathcmp` takes for a literal, so a URI with a query is another one, and an empty URI fails
the assertion. -/
def handlePath (URI path : Str) (handled : Handled) : Option Handled :=
  match uripathcmp URI path with
  | .error fault => some (.error fault)
  | .ok same => if same then some handled else none

/-- `GET_index`. -/
def getIndex : Option Handled :=
  if reads request then handlePath request.URI "/".toList (answered library pageIndex) else none

/-- Where `POST_lookup` sends a client: the text is cut off by the array it is printed into. -/
def lookupLocation (page str : Str) : Str := (snprintf (page ++ str) uriMax).1

/-- `POST_lookup`, for the text of the field. -/
def lookup (str : Str) : Handled :=
  match hashUriNormalize stack str uriMax with
  | .ok _ => .ok ([.redirect (lookupLocation "/sources/".toList str)], 0)
  | .error (.code .hashEparse) =>
    match urlNormalize str uriMax with
    | .ok _ => .ok ([.redirect (lookupLocation "/history/".toList str)], 0)
    | .error (.code .urlEparse) => answered library (parseError str)
    | .error (.code rc) => .ok ([], hxHttperr library (.code rc))
    | .error (.fault fault) => .error fault
  | .error (.code rc) => .ok ([], hxHttperr library (.code rc))
  | .error (.fault fault) => .error fault

/-- `POST_lookup`. -/
def postLookup : Option Handled :=
  if request.method = .post then
    handlePath request.URI "/lookup".toList (match request.str with
      | .error rc => .ok ([], hxHttperr library (.rc rc))
      | .ok none => .ok ([.status 400], 0)
      | .ok (some str) => lookup library stack str)
  else none

/-- A handler for what follows a literal in the URI. -/
def getWith (literal : Str) (handle : Str → Handled) : Option Handled :=
  if reads request ∧ scanString literal request.URI ≠ [] then
    some (handle (scanString literal request.URI))
  else none

/-- `GET_history`. -/
def getHistory : Option Handled :=
  getWith request "/history/".toList fun url =>
    answeredOr library .urlEparse url (pageHistoryOutcome m url)

/-- `GET_sources`. -/
def getSources : Option Handled :=
  getWith request "/sources/".toList fun hash =>
    answeredOr library .hashEparse hash (pageSourcesOutcome stack m hash)

/-- `GET_critical`. -/
def getCritical : Option Handled :=
  if reads request then
    handlePath request.URI "/critical/".toList (answered library pageCritical)
  else none

/-- `GET_api_enqueue`. -/
def getApiEnqueue : Option Handled :=
  getWith request "/api/enqueue/".toList fun url => answered library (apiEnqueue stack m url)

/-- `GET_api_history`. -/
def getApiHistory : Option Handled :=
  getWith request "/api/history/".toList fun url =>
    answered library (apiOutcome (apiHistory stack url m.read).1)

/-- `GET_api_sources`. -/
def getApiSources : Option Handled :=
  getWith request "/api/sources/".toList fun hash =>
    answered library (apiOutcome (apiSources stack hash m.read).1)

/-- `GET_api_dump`. -/
def getApiDumpHandled : Option Handled :=
  if reads request then
    (getApiDump (scanDump request.URI).1 (scanDump request.URI).2).map fun window =>
      answered library (.ok ⟨[.dump window.1 window.2], .ok ()⟩)
  else none

/-- `GET_static`. -/
def getStatic : Option Handled :=
  if reads request then some (
    match urlParse request.URI with
    | .error (.code rc) => .ok ([], hxHttperr library (.code rc))
    | .error (.fault fault) => .error fault
    | .ok obj =>
      match Path.pathSubpathSecure (some Path.configStaticDir) (some obj.path)
        (stack.uninitializedChars 4096) 4096 with
      | .error (.code rc) => .ok ([], hxHttperr library (.code rc))
      | .error (.fault fault) => .error fault
      | .ok (.error rc, _) => .ok ([], hxHttperr library (.rc rc))
      | .ok (.ok (), path) =>
        match library.sendFile path with
        | .sent | .uvEpipe => .ok ([.file path], 0)
        | .failed rc => .ok ([], hxHttperr library (.rc rc))
        | .uvEisdir =>
          let (location, rc) := snprintf (request.URI ++ ['/']) uriMax
          if rc ≥ uriMax then .ok ([], 414) else .ok ([.redirect location], 0))
  else none

/-- The handlers in the order of `listener`, without the last one. -/
def routes : List (Option Handled) :=
  [getIndex library request, postLookup library stack request, getHistory library m request,
    getSources library stack m request, getCritical library request,
    getApiEnqueue library stack m request, getApiHistory library stack m request,
    getApiSources library stack m request, getApiDumpHandled library request]

/-- What `listener` sends after a handler. -/
def finish : Option Handled → Except Fault (List Answer)
  | none => .ok [.status 404]
  | some handled => do
    let (answers, rc) ← handled
    .ok (if rc > 0 then answers ++ [.status rc] else answers)

/-- `rc >= 0 ? rc : handler`, for some handlers. -/
def firstHandled (handlers : List (Option Handled)) : Option Handled :=
  handlers.foldl (fun rc handler => rc.or handler) none

/-- What `listener` sends when it offers a request to some handlers. -/
def dispatch (handlers : List (Option Handled)) : Except Fault (List Answer) :=
  finish (firstHandled handlers)

theorem uvEacces_neg : (-13 : ℤ) < 0 := of_decide_eq_true rfl

/-- `listener`, for a request that was read. -/
def listener : Except Fault (List Answer) :=
  match hostCheck request.host with
  | .error .uvEacces => .ok [.status (hxHttperr library (.rc ⟨-13, uvEacces_neg⟩))]
  | .error (.parse (.code rc)) => .ok [.status (hxHttperr library (.code rc))]
  | .error (.parse (.fault fault)) => .error fault
  | .ok _ => dispatch (routes library stack m request ++ [getStatic library stack request])

end Handlers

/-! ## The order of the handlers -/

/-- At most one of the handlers is meant. -/
def Exclusive (handlers : List (Option Handled)) : Prop :=
  handlers.Pairwise fun first second => first = none ∨ second = none

/-- The handlers that are meant do the same. -/
def Agreeing (handlers : List (Option Handled)) : Prop :=
  handlers.Pairwise fun first second => first = none ∨ second = none ∨ first = second

theorem Exclusive.agreeing {handlers : List (Option Handled)} (exclusive : Exclusive handlers) :
    Agreeing handlers :=
  exclusive.imp fun either => either.imp_right .inl

theorem foldl_or (rc : Option Handled) (handlers : List (Option Handled)) :
    handlers.foldl (fun rc handler => rc.or handler) rc = rc.or (firstHandled handlers) := by
  induction handlers generalizing rc with
  | nil => simp [firstHandled]
  | cons handler handlers ih =>
      rw [firstHandled, List.foldl_cons, List.foldl_cons, ih, ih (Option.or none handler),
        Option.none_or, Option.or_assoc]

theorem firstHandled_cons (handler : Option Handled) (handlers : List (Option Handled)) :
    firstHandled (handler :: handlers) = handler.or (firstHandled handlers) := by
  rw [firstHandled, List.foldl_cons, Option.none_or, foldl_or]

theorem firstHandled_append (front back : List (Option Handled)) :
    firstHandled (front ++ back) = (firstHandled front).or (firstHandled back) := by
  rw [firstHandled, List.foldl_append, foldl_or]
  rfl

/-- When the handlers that are meant do the same, the first does what any of them does. -/
theorem firstHandled_eq_some_iff {handlers : List (Option Handled)} (agreeing : Agreeing handlers)
    (handled : Handled) : firstHandled handlers = some handled ↔ some handled ∈ handlers := by
  induction handlers with
  | nil => simp [firstHandled]
  | cons handler handlers ih =>
      obtain ⟨others, alike⟩ := List.pairwise_cons.mp agreeing
      rw [firstHandled_cons, List.mem_cons]
      cases handler with
      | none => simpa using ih alike
      | some first =>
          rw [Option.some_or, eq_comm]
          refine (or_iff_left_of_imp fun member => ?_).symm
          rcases others _ member with absent | absent | same
          · cases absent
          · cases absent
          · exact same.symm

/-- Such handlers can be tried in any order. -/
theorem firstHandled_of_perm {first second : List (Option Handled)} (agreeing : Agreeing first)
    (perm : first.Perm second) : firstHandled first = firstHandled second := by
  have swap {one other : Option Handled} (either : one = none ∨ other = none ∨ one = other) :
      other = none ∨ one = none ∨ other = one := by
    rcases either with absent | absent | same
    · exact .inr (.inl absent)
    · exact .inl absent
    · exact .inr (.inr same.symm)
  have same : Agreeing second := (perm.pairwise_iff swap).mp agreeing
  refine Option.ext fun handled => ?_
  rw [firstHandled_eq_some_iff agreeing, firstHandled_eq_some_iff same, perm.mem_iff]

/-- What tells the requests of the handlers apart: whether the method only reads, and the start
of the URI; the index has none. -/
def routeKey (request : Request) : Bool × Str :=
  (reads request, if request.URI[1]? ∈ [none, some '?'] then [] else request.URI.take 6)

/-- The keys of the handlers, in the order of `listener`. -/
def routeKeys : List (Bool × Str) :=
  [(true, []), (false, "/looku".toList), (true, "/histo".toList), (true, "/sourc".toList),
    (true, "/criti".toList), (true, "/api/e".toList), (true, "/api/h".toList),
    (true, "/api/s".toList), (true, "/api/d".toList)]

section Routes

variable {request : Request} {literal : Str}

theorem routeKey_of_literal (start : literal <+: request.URI) (long : 6 ≤ literal.length)
    (named : literal[1]? ∉ [none, some '?']) :
    routeKey request = (reads request, literal.take 6) := by
  obtain ⟨rest, same⟩ := start
  have second : request.URI[1]? = literal[1]? := by
    rw [← same, List.getElem?_append_left (by omega)]
  rw [routeKey, second, if_neg named, ← same, List.take_append_of_le_length long]

/-- A URI is compared as a whole with a path that has no query. -/
theorem uripathcmp_eq {path : Str} (plain : '?' ∉ path) {URI : Str} (nonempty : URI ≠ []) :
    uripathcmp URI path = .ok (URI = path) := by
  rw [uripathcmp, if_neg (by simpa using nonempty)]
  refine congrArg Except.ok (decide_eq_decide.mpr ⟨?_, ?_⟩)
  · rintro ⟨⟨rest, rfl⟩, ends⟩
    cases rest with
    | nil => rw [List.append_nil]
    | cons c rest =>
        rw [List.getElem?_append_right (Nat.le_refl _), Nat.sub_self] at ends
        rcases List.mem_pair.mp ends with past | query
        · cases past
        · cases query
          exact absurd (by simp) plain
  · rintro rfl
    exact ⟨List.prefix_refl _, by simp⟩

/-- A handler for a path is meant for that URI, and for the empty one. -/
theorem URI_of_handlePath {URI path : Str} (plain : '?' ∉ path) {handled : Handled}
    (nonempty : URI ≠ []) (meant : handlePath URI path handled ≠ none) : URI = path := by
  by_contra other
  refine meant ?_
  rw [handlePath, uripathcmp_eq plain nonempty, decide_eq_false other]
  rfl

/-- The assertion fails for an empty URI. -/
theorem handlePath_nil (path : Str) (handled : Handled) :
    handlePath [] path handled = some (.error .assertion) := rfl

theorem prefix_of_scanString (scanned : scanString literal request.URI ≠ []) :
    literal <+: request.URI := by
  rw [scanString] at scanned
  split at scanned
  · assumption
  · exact absurd rfl scanned

theorem prefix_of_scanDump (scanned : (scanDump request.URI).1 ≠ 0) :
    "/api/dump/?start=".toList <+: request.URI := by
  rw [scanDump] at scanned
  split at scanned
  · assumption
  · exact absurd rfl scanned

/-- A handler for what follows a literal is meant for URIs with the literal. -/
theorem routeKey_of_getWith {handle : Str → Handled}
    (meant : getWith request literal handle ≠ none) (long : 6 ≤ literal.length)
    (named : literal[1]? ∉ [none, some '?']) : routeKey request = (true, literal.take 6) := by
  rw [getWith] at meant
  split at meant
  · rename_i both
    rw [routeKey_of_literal (prefix_of_scanString both.2) long named, both.1]
  · exact absurd rfl meant

/-- Each handler is meant for the requests with its key only, when the URI is not empty. -/
theorem routeKey_of_routes (library : Library) (stack : Stack) (m : Moments)
    (nonempty : request.URI ≠ []) :
    List.Forall₂ (fun handler key => handler ≠ none → routeKey request = key)
      (routes library stack m request) routeKeys := by
  refine .cons ?_ <| .cons ?_ <| .cons (fun meant => ?_) <| .cons (fun meant => ?_) <| .cons ?_ <|
    .cons (fun meant => ?_) <| .cons (fun meant => ?_) <| .cons (fun meant => ?_) <| .cons ?_ .nil
  · intro meant
    rw [getIndex] at meant
    split at meant
    · rename_i reading
      rw [routeKey, URI_of_handlePath (by decide) nonempty meant, reading]
      rfl
    · exact absurd rfl meant
  · intro meant
    rw [postLookup] at meant
    split at meant
    · rename_i post
      rw [routeKey, URI_of_handlePath (by decide) nonempty meant, reads, post]
      rfl
    · exact absurd rfl meant
  · exact routeKey_of_getWith meant (by decide) (by decide)
  · exact routeKey_of_getWith meant (by decide) (by decide)
  · intro meant
    rw [getCritical] at meant
    split at meant
    · rename_i reading
      rw [routeKey, URI_of_handlePath (by decide) nonempty meant, reading]
      rfl
    · exact absurd rfl meant
  · exact routeKey_of_getWith meant (by decide) (by decide)
  · exact routeKey_of_getWith meant (by decide) (by decide)
  · exact routeKey_of_getWith meant (by decide) (by decide)
  · intro meant
    rw [getApiDumpHandled] at meant
    split at meant
    · rename_i reading
      have started : (scanDump request.URI).1 ≠ 0 := fun zero => meant (by
        rw [getApiDump, zero]
        rfl)
      rw [routeKey_of_literal (prefix_of_scanDump started) (by decide) (by decide), reading]
      rfl
    · exact absurd rfl meant

theorem exists_key_of_mem {key : Bool × Str} {handlers : List (Option Handled)}
    {keys : List (Bool × Str)} {handler : Option Handled}
    (keyed : List.Forall₂ (fun handler own => handler ≠ none → key = own) handlers keys)
    (member : handler ∈ handlers) (meant : handler ≠ none) : key ∈ keys := by
  induction keyed with
  | nil => cases member
  | cons first _ ih =>
      rcases List.mem_cons.mp member with rfl | member
      · exact first meant ▸ List.mem_cons_self
      · exact List.mem_cons_of_mem _ (ih member)

/-- Handlers with different keys exclude each other. -/
theorem exclusive_of_keys {key : Bool × Str} {handlers : List (Option Handled)}
    {keys : List (Bool × Str)} (nodup : keys.Nodup)
    (keyed : List.Forall₂ (fun handler own => handler ≠ none → key = own) handlers keys) :
    Exclusive handlers := by
  induction keyed with
  | nil => exact .nil
  | cons first others ih =>
      obtain ⟨apart, nodup⟩ := List.nodup_cons.mp nodup
      refine List.pairwise_cons.mpr ⟨fun other member => ?_, ih nodup⟩
      by_contra both
      obtain ⟨meant, otherMeant⟩ := not_or.mp both
      exact apart (first meant ▸ exists_key_of_mem others member otherMeant)

/-- No request with a URI is meant for two of the nine specific handlers. -/
theorem exclusive_routes (library : Library) (stack : Stack) (m : Moments)
    (nonempty : request.URI ≠ []) : Exclusive (routes library stack m request) :=
  exclusive_of_keys (by decide) (routeKey_of_routes library stack m nonempty)

/-- Without a URI, the handlers that are meant fail the assertion. -/
theorem routes_of_nil (library : Library) (stack : Stack) (m : Moments) (empty : request.URI = []) :
    ∀ handler ∈ routes library stack m request,
      handler = none ∨ handler = some (.error .assertion) := by
  have only (condition : Prop) [Decidable condition] (path : Str) (handled : Handled) :
      (if condition then handlePath request.URI path handled else none) = none ∨
        (if condition then handlePath request.URI path handled else none) =
          some (.error .assertion) := by
    split
    · exact .inr (by rw [empty, handlePath_nil])
    · exact .inl rfl
  have never {literal : Str} (long : literal ≠ []) (handle : Str → Handled) :
      getWith request literal handle = none := by
    rw [getWith, scanString, empty, if_neg (mt List.prefix_nil.mp long), if_neg (by simp)]
  have dump : getApiDumpHandled library request = none := by
    rw [getApiDumpHandled, empty]
    split <;> rfl
  simp only [routes, List.mem_cons, List.not_mem_nil, or_false, forall_eq_or_imp, forall_eq]
  exact ⟨only _ _ _, only _ _ _, .inl (never (by decide) _), .inl (never (by decide) _),
    only _ _ _, .inl (never (by decide) _), .inl (never (by decide) _),
    .inl (never (by decide) _), .inl dump⟩

theorem agreeing_routes (library : Library) (stack : Stack) (m : Moments) (request : Request) :
    Agreeing (routes library stack m request) := by
  by_cases empty : request.URI = []
  · have all := routes_of_nil library stack m empty
    refine List.pairwise_of_forall_mem_list fun first member second inRoutes => ?_
    rcases all first member with rfl | rfl
    · exact .inl rfl
    · exact .inr ((all second inRoutes).imp_right Eq.symm)
  · exact (exclusive_routes library stack m empty).agreeing

/-- **The order of the handlers makes no difference**: at most one of the nine specific handlers
is meant for a URI that is not empty, and the listener can offer any request to them in any
order before it looks for a file. -/
theorem listener_of_perm (library : Library) (stack : Stack) (m : Moments) (request : Request) :
    (request.URI ≠ [] → Exclusive (routes library stack m request)) ∧
      ∀ handlers : List (Option Handled), handlers.Perm (routes library stack m request) →
        dispatch (handlers ++ [getStatic library stack request]) =
          dispatch (routes library stack m request ++ [getStatic library stack request]) := by
  refine ⟨exclusive_routes library stack m, fun handlers perm => ?_⟩
  rw [dispatch, dispatch, firstHandled_append, firstHandled_append,
    firstHandled_of_perm (agreeing_routes library stack m request) perm.symm]

end Routes

/-- Errors have the status 500, and files are there. -/
def Library.plain : Library := ⟨fun _ => 500, fun _ => .sent⟩

/-- A request for the history of a URL. -/
def Request.sample : Request where
  method := .get
  URI := "/history/http://a.b/".toList
  host := "localhost".toList
  str := .ok none

/-- Its URL is not known when the history is read, and crawled at 5 when it is enqueued. -/
def Moments.sample : Moments where
  now := 6
  newId := 0
  read := ∅
  enqueue := (∅ : Database).insert (.urlSurtAndTimeID "http://(b,a,)/".toList 5 0) []
  timeouts := 0
  waited := true
  after := ∅
  slot := .blank

/-- The handlers from the last to the first. -/
theorem listener_of_perm_reverse :
    dispatch ((routes Library.plain (fun _ => 0) Moments.sample Request.sample).reverse ++
      [getStatic Library.plain (fun _ => 0) Request.sample]) =
    dispatch (routes Library.plain (fun _ => 0) Moments.sample Request.sample ++
      [getStatic Library.plain (fun _ => 0) Request.sample]) :=
  (listener_of_perm _ _ _ _).2 _ (List.reverse_perm _)

end HashArchive.Server
