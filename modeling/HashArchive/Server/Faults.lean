import HashArchive.Server.Listener

/-!
# Requests that get an answer

A request gets no answer when the process aborts or leaves one of its arrays. `Served` says what
keeps it from both: the URI is not empty, so that `uripathcmp` has a literal; the clock has been
set, which `queue_add` asserts; the tables of the database agree; and a hash that is looked up
or asked for fits the arrays of the hash functions. Then every handler returns
(`returns_of_mem`) and the listener sends something (`exists_listener`).
-/

set_option autoImplicit false

namespace HashArchive.Server

open Api Db Hash Pages Queue Url Yajl

/-! ## Calls that stay in bounds -/

theorem staysInBounds_ok {α : Type} (value : α) : StaysInBounds (.ok value : Result α) := nofun

theorem staysInBounds_code {α : Type} (rc : ErrorCode) :
    StaysInBounds (.error (.code rc) : Result α) := nofun

/-- The functions for URLs fail with their own errors only. -/
theorem staysInBounds_of_urlError {α : Type} {call : Result α}
    (url : ∀ failure, call = .error failure → IsUrlError failure) : StaysInBounds call := by
  intro fault failed
  rcases url _ failed with other | other
  · cases other
  · cases other

/-- A call and what follows it. -/
theorem staysInBounds_bind {α β : Type} {call : Result α} {next : α → Result β}
    (first : StaysInBounds call) (second : ∀ value, call = .ok value → StaysInBounds (next value)) :
    StaysInBounds (call >>= next) := by
  intro fault failed
  rcases Result.bind_eq_error.mp failed with here | ⟨value, done, later⟩
  · exact first fault here
  · exact second value done fault later

/-- A call that reads the database, and what follows it. -/
theorem staysInBounds_read {α β : Type} {call : DbTxn α} {next : α → DbTxn β} {db : Database}
    (first : StaysInBounds (call db).1)
    (second : ∀ value after, call db = (.ok value, after) → StaysInBounds (next value after).1) :
    StaysInBounds ((call >>= next) db).1 := by
  cases done : call db with
  | mk outcome after =>
      cases outcome with
      | ok value =>
          rw [Txn.bind_of_ok done]
          exact second value after done
      | error failure =>
          rw [Txn.bind_of_error done]
          rw [done] at first
          exact fun fault failed => first fault (congrArg Except.error (Except.error.inj failed))

/-- A call of a function that does not read the database, and what follows it. -/
theorem staysInBounds_call {α β : Type} {call : Result α} {next : α → DbTxn β} {db : Database}
    (first : StaysInBounds call)
    (second : ∀ value, call = .ok value → StaysInBounds (next value db).1) :
    StaysInBounds ((Txn.call call >>= next) db).1 := by
  refine staysInBounds_read first fun value after done => ?_
  obtain ⟨here, rfl⟩ := Prod.mk.inj done
  exact second value here

/-! ## Hashes and URLs -/

section Hashes

variable {URI : Str} (fits : DigestFits URI)
include fits

/-- The bytes of a link that fits are read from the array. -/
theorem hashUriParse_staysInBounds (stack : Stack) : StaysInBounds (hashUriParse stack URI) := by
  intro fault failed
  have faulted := fault_of_hashUriParse failed
  have accepted : Accepted stack URI := fun rc refused => by cases faulted.symm.trans refused
  obtain ⟨matched, algo, buf, parsed, -, size⟩ := accepted.parsedBehind stack
  have short := fits.multihash matched
  obtain ⟨m, answer⟩ := Option.isSome_iff_exists.mp matched
  unfold hashUriParseMultihashBehind at parsed
  unfold hashUriParseMultihash at faulted
  rw [answer] at parsed faulted
  obtain ⟨⟨tmp, len⟩, decoded, parsed⟩ := Result.bind_eq_ok.mp parsed
  have whole := length_of_b58Decode decoded
  rw [Stack.length_uninitialized] at whole
  simp only [decoded, Result.ok_bind] at faulted
  by_cases few : len < 2
  · simp only [if_pos few] at parsed
    cases parsed
  · simp only [if_neg few] at parsed faulted
    obtain ⟨known, decodedAlgo, parsed⟩ := Result.bind_eq_ok.mp parsed
    obtain ⟨read, cells, parsed⟩ := Result.bind_eq_ok.mp parsed
    cases parsed
    obtain ⟨-, rfl⟩ := readCells_eq_ok.mp cells
    rw [List.length_take, List.length_drop, List.length_append, Stack.length_uninitialized] at size
    have inArray : readCells tmp 2 (len - 2) = .ok ((tmp.drop 2).take (len - 2)) :=
      readCells_eq_ok.mpr ⟨by omega, rfl⟩
    rw [decodedAlgo, Result.ok_bind, inArray] at faulted
    cases faulted

/-- A digest that was parsed is not longer than `HASH_DIGEST_MAX`. -/
theorem length_of_hashUriParse {stack : Stack} {obj : HashUri}
    (parsed : hashUriParse stack URI = .ok obj) : obj.buf.length ≤ hashDigestMax := by
  rcases parser_of_hashUriParse parsed with ⟨form, member, taken⟩ | taken
  · obtain ⟨m, buf, answer, decoded, rfl⟩ := hashUriParseForm_eq_ok.mp taken
    exact (length_decoded_le_iff member (regexec_eq_some answer).1 decoded).mpr
      (fits.digits form member m answer)
  · exact (hashUriParseMultihash_fits taken).2

end Hashes

/-- A link is formatted in bounds when its digest is not too long. -/
theorem hashUriFormat_staysInBounds (stack : Stack) (obj : HashUri)
    (fits : obj.buf.length ≤ hashDigestMax) {max : ℕ} (room : 0 < max) :
    StaysInBounds (hashUriFormat stack obj max) := by
  cases known : obj.algo with
  | none =>
      rw [hashUriFormat, assertThat, if_pos room, known]
      exact staysInBounds_code _
  | some algo =>
      have variant := (hashUriVariant_inBounds stack known room obj.type).mpr (.inr (.inr fits))
      intro fault failed
      refine variant fault ?_
      rw [hashUriVariant, failed]
      rfl

theorem hashUriNormalize_staysInBounds (stack : Stack) {URI : Str} (fits : DigestFits URI) :
    StaysInBounds (hashUriNormalize stack URI uriMax) := by
  refine staysInBounds_bind (hashUriParse_staysInBounds fits stack) fun obj parsed => ?_
  have short := length_of_hashUriParse fits parsed
  refine staysInBounds_bind (hashUriFormat_staysInBounds stack obj short uriMax_pos) ?_
  exact fun formatted _ => staysInBounds_ok formatted.1

theorem hashUriVariant_staysInBounds (stack : Stack) {obj : HashUri}
    (short : obj.buf.length ≤ hashDigestMax) (type : HashUriType) :
    StaysInBounds (hashUriVariant stack obj type uriMax) :=
  staysInBounds_bind (hashUriFormat_staysInBounds stack { obj with type := type } short uriMax_pos)
    fun formatted _ => staysInBounds_ok formatted.1

theorem urlParse_staysInBounds (url : Str) : StaysInBounds (urlParse url) :=
  staysInBounds_of_urlError fun _ => urlParse_error

theorem urlNormalize_staysInBounds (url : Str) (max : ℕ) : StaysInBounds (urlNormalize url max) :=
  staysInBounds_bind (urlParse_staysInBounds url) fun _ _ =>
    staysInBounds_of_urlError fun _ => snprintfOrTooLong_error

theorem urlNormalizeSurt_staysInBounds (url : Str) (max : ℕ) :
    StaysInBounds (urlNormalizeSurt url max) :=
  staysInBounds_of_urlError fun _ => urlNormalizeSurt_error

/-! ## Reading the database -/

section Read

variable {db : Database} (agree : TablesAgree db)
include agree

theorem hxGetHistory_staysInBounds (url : Str) {out : List Response} (room : 0 < out.length) :
    StaysInBounds (hxGetHistory url out db).1 := by
  cases normalized : urlNormalizeSurt url uriMax with
  | ok surt =>
      obtain ⟨filled, done⟩ := hxGetHistory_of_agree agree normalized room
      rw [done]
      exact staysInBounds_ok filled
  | error failure =>
      rw [hxGetHistory, Txn.assert_bind room, normalized, Txn.bind_of_error (Txn.call_apply _ _)]
      exact fun fault failed => urlNormalizeSurt_staysInBounds url uriMax fault
        (normalized.trans (congrArg Except.error (Except.error.inj failed)))

theorem hxGetSources_staysInBounds (obj : HashUri) {out : List Response} (room : 0 < out.length) :
    StaysInBounds (hxGetSources obj out db).1 := by
  obtain ⟨filled, done⟩ := hxGetSources_of_agree agree obj room
  rw [done]
  exact staysInBounds_ok filled

theorem pageHistory_staysInBounds (now : ℕ) (url : Str) :
    StaysInBounds (pageHistory now url db).1 := by
  refine staysInBounds_call (urlParse_staysInBounds url) fun obj _ => ?_
  split
  · exact staysInBounds_code _
  · refine staysInBounds_read (hxGetHistory_staysInBounds agree url (by decide)) ?_
    exact fun filled _ _ => staysInBounds_ok _

theorem pageSources_staysInBounds (obj : HashUri) : StaysInBounds (pageSources obj db).1 :=
  staysInBounds_read (hxGetSources_staysInBounds agree obj (by decide))
    fun filled _ _ => staysInBounds_ok _

omit agree in
theorem responseList_staysInBounds (stack : Stack) (responses : List Response) :
    StaysInBounds (responseList stack responses) := by
  obtain ⟨text, printed, -⟩ := exists_responseList stack responses
  rw [printed]
  exact staysInBounds_ok text

theorem apiHistory_staysInBounds (stack : Stack) (url : Str) :
    StaysInBounds (apiHistory stack url db).1 := by
  refine staysInBounds_call (urlParse_staysInBounds url) fun obj _ => ?_
  refine staysInBounds_read (hxGetHistory_staysInBounds agree url (by decide)) ?_
  exact fun filled _ _ => responseList_staysInBounds stack filled

theorem apiSources_staysInBounds (stack : Stack) {hash : Str} (fits : DigestFits hash) :
    StaysInBounds (apiSources stack hash db).1 := by
  refine staysInBounds_call (hashUriParse_staysInBounds fits stack) fun obj _ => ?_
  refine staysInBounds_read (hxGetSources_staysInBounds agree obj (by decide)) ?_
  exact fun filled _ _ => responseList_staysInBounds stack filled

end Read

theorem queueAdd_staysInBounds {now : ℕ} (started : now ≠ 0) (newId : ℕ) (url : Str)
    (db : Database) : StaysInBounds (queueAdd now newId url db) := by
  rw [queueAdd, assertThat, if_pos started, Result.ok_bind]
  refine staysInBounds_bind (urlNormalizeSurt_staysInBounds url uriMax) fun surt _ => ?_
  refine staysInBounds_bind ?_ fun _ _ => staysInBounds_ok ()
  rcases queueAddTxn_cases surt ⟨now, newId, url, []⟩ db with ⟨_, done, -⟩ | done | done
  · rw [done]
    exact staysInBounds_ok _
  · rw [done]
    exact staysInBounds_ok _
  · rw [done]
    exact staysInBounds_code _

/-! ## Handlers that return -/

/-- A function that returns, or a handler. -/
def Returns {α : Type} (call : Except Fault α) : Prop := ∃ value, call = .ok value

theorem returns_beforeSending {α : Type} {call : Result α} {next : α → Except Fault Outcome}
    (first : StaysInBounds call) (second : ∀ value, call = .ok value → Returns (next value)) :
    Returns (beforeSending call next) := by
  cases call with
  | ok value => exact second value rfl
  | error failure =>
      cases failure with
      | code rc => exact ⟨_, rfl⟩
      | fault fault => exact absurd rfl (first fault)

variable {library : Library} {stack : Stack} {m : Moments} {request : Request}

/-- A header is refused without a fault. -/
theorem hostCheck_ne_fault (header : Str) (fault : Fault) :
    hostCheck header ≠ .error (.parse (.fault fault)) := by
  intro refused
  unfold hostCheck at refused
  cases parse : hostParse header with
  | ok obj =>
      simp only [parse] at refused
      split_ifs at refused
      cases refused
  | error failure =>
      simp only [parse] at refused
      split_ifs at refused
      · cases refused
      · cases refused
        exact staysInBounds_of_urlError (fun _ => hostParse_error) fault parse

theorem firstHandled_mem {handlers : List (Option Handled)} {handled : Handled}
    (first : firstHandled handlers = some handled) : some handled ∈ handlers := by
  induction handlers with
  | nil => cases first
  | cons handler handlers ih =>
      rw [firstHandled_cons] at first
      cases handler with
      | some _ =>
          cases first
          exact List.mem_cons_self
      | none => exact List.mem_cons_of_mem _ (ih first)

theorem returns_answered {outcome : Except Fault Outcome} (returns : Returns outcome) :
    Returns (answered library outcome) := by
  obtain ⟨⟨answers, rc | done⟩, rfl⟩ := returns
  · exact ⟨_, rfl⟩
  · exact ⟨_, rfl⟩

theorem returns_answeredOr {outcome : Except Fault Outcome} (returns : Returns outcome)
    (eparse : ErrorCode) (query : Str) : Returns (answeredOr library eparse query outcome) := by
  obtain ⟨result, rfl⟩ := returns
  show Returns (if result.rc = .error (.code eparse) then _ else _)
  split
  · exact ⟨_, rfl⟩
  · exact returns_answered ⟨_, rfl⟩

/-- What a request looks up or asks for as a hash. -/
def hashTexts (request : Request) : List Str :=
  (match request.str with | .ok (some str) => [str] | _ => []) ++
    [scanString "/sources/".toList request.URI, scanString "/api/sources/".toList request.URI]

/-- **A request that is served.** -/
structure Served (m : Moments) (request : Request) : Prop where
  nonempty : request.URI ≠ []
  started : m.now ≠ 0
  read : TablesAgree m.read
  after : TablesAgree m.after
  fits : ∀ hash ∈ hashTexts request, DigestFits hash

theorem returns_pageHistory (started : m.now ≠ 0) (agree : TablesAgree m.read) (url : Str) :
    Returns (pageHistoryOutcome m url) := by
  refine returns_beforeSending (pageHistory_staysInBounds agree m.now url) fun page _ => ?_
  split
  · have added := queueAdd_staysInBounds started m.newId url m.enqueue
    split
    · exact ⟨_, rfl⟩
    · exact ⟨_, rfl⟩
    · rename_i fault failed
      exact absurd failed (added fault)
  · exact ⟨_, rfl⟩

theorem returns_pageSources (agree : TablesAgree m.read) {hash : Str} (fits : DigestFits hash) :
    Returns (pageSourcesOutcome stack m hash) := by
  refine returns_beforeSending (hashUriParse_staysInBounds fits stack) fun obj parsed => ?_
  have short := length_of_hashUriParse fits parsed
  refine returns_beforeSending (pageSources_staysInBounds agree obj) fun entries _ => ?_
  obtain ⟨_, hex⟩ := hexEncode_spec obj.buf (stack.uninitializedChars (hashDigestMax * 2 + 1))
    (Nat.succ_pos (hashDigestMax * 2)) (by simp)
  refine returns_beforeSending (hex ▸ staysInBounds_ok _) fun _ _ => ?_
  refine returns_beforeSending ?_ fun _ _ => ⟨_, rfl⟩
  unfold sourcesMultihash
  split
  · exact staysInBounds_ok _
  · exact hashUriVariant_staysInBounds stack short .linkMultihash

theorem enqueueBody_staysInBounds (agree : TablesAgree m.after) (existing : Bool) (url : Str) :
    StaysInBounds (enqueueBody stack m existing url) := by
  have history := hxGetHistory_staysInBounds agree url (show 0 < [m.slot].length from Nat.one_pos)
  unfold enqueueBody
  dsimp only
  split
  · rename_i res _
    split
    · obtain ⟨after, run, -⟩ := @emit_reads true false (printedJson res) (by
        rw [nesting_printedJson]
        decide)
      rw [resJson_eq, run]
      exact staysInBounds_ok _
    · exact staysInBounds_ok _
  · exact staysInBounds_ok _
  · exact staysInBounds_ok _
  · rename_i fault failed
    exact absurd failed (history fault)

theorem returns_apiEnqueue (started : m.now ≠ 0) (agree : TablesAgree m.after) (url : Str) :
    Returns (apiEnqueue stack m url) := by
  have added := queueAdd_staysInBounds started m.newId url m.enqueue
  unfold apiEnqueue
  split
  · exact returns_beforeSending (enqueueBody_staysInBounds agree _ _) fun _ _ => ⟨_, rfl⟩
  · exact returns_beforeSending (enqueueBody_staysInBounds agree _ _) fun _ _ => ⟨_, rfl⟩
  · exact ⟨_, rfl⟩
  · rename_i fault failed
    exact absurd failed (added fault)

theorem returns_lookup {str : Str} (fits : DigestFits str) : Returns (lookup library stack str) := by
  have hash := hashUriNormalize_staysInBounds stack fits
  have url := urlNormalize_staysInBounds str uriMax
  unfold lookup
  split
  · exact ⟨_, rfl⟩
  · split
    · exact ⟨_, rfl⟩
    · exact returns_answered ⟨_, rfl⟩
    · exact ⟨_, rfl⟩
    · rename_i fault failed
      exact absurd failed (url fault)
  · exact ⟨_, rfl⟩
  · rename_i fault failed
    exact absurd failed (hash fault)

theorem returns_getStatic {handled : Handled} (meant : getStatic library stack request = some handled) :
    Returns handled := by
  have url := urlParse_staysInBounds request.URI
  rw [getStatic] at meant
  split at meant
  · cases meant
    split
    · exact ⟨_, rfl⟩
    · rename_i fault failed
      exact absurd failed (url fault)
    · rename_i obj _
      obtain ⟨rc, path, secured⟩ := Path.exists_pathSubpathSecure (some Path.configStaticDir)
        (some obj.path) (stack.uninitializedChars 4096) (show 0 < 4096 by decide)
      rw [secured]
      cases rc with
      | error rc => exact ⟨_, rfl⟩
      | ok done =>
          dsimp only
          split
          · exact ⟨_, rfl⟩
          · exact ⟨_, rfl⟩
          · exact ⟨_, rfl⟩
          · show Returns (if _ then _ else _)
            split <;> exact ⟨_, rfl⟩
  · cases meant

section Handlers

variable (served : Served m request)
include served

theorem Served.handlePath {path : Str} {handled meant : Handled} (returns : Returns handled)
    (same : handlePath request.URI path handled = some meant) : Returns meant := by
  have compared : ∃ equal, uripathcmp request.URI path = .ok equal := by
    rw [uripathcmp, if_neg (by simpa using served.nonempty)]
    exact ⟨_, rfl⟩
  obtain ⟨equal, compared⟩ := compared
  rw [Server.handlePath, compared] at same
  replace same : (if equal then some handled else none) = some meant := same
  split at same
  · cases same
    exact returns
  · cases same

omit served in
theorem returns_getWith {literal : Str} {handle : Str → Handled}
    (returns : Returns (handle (scanString literal request.URI))) {handled : Handled}
    (meant : getWith request literal handle = some handled) : Returns handled := by
  rw [getWith] at meant
  split at meant
  · cases meant
    exact returns
  · cases meant

/-- **Every handler that is meant returns.** -/
theorem returns_of_mem {handled : Handled}
    (member : some handled ∈ routes library stack m request ++ [getStatic library stack request]) :
    Returns handled := by
  simp only [routes, List.cons_append, List.nil_append, List.mem_cons, List.not_mem_nil,
    or_false] at member
  rcases member with meant | meant | meant | meant | meant | meant | meant | meant | meant | meant
  · rw [getIndex] at meant
    split at meant
    · exact served.handlePath (returns_answered ⟨_, rfl⟩) meant.symm
    · cases meant
  · rw [postLookup] at meant
    split at meant
    · refine served.handlePath ?_ meant.symm
      split
      · exact ⟨_, rfl⟩
      · exact ⟨_, rfl⟩
      · rename_i str sent
        refine returns_lookup (served.fits str ?_)
        rw [hashTexts, sent]
        exact List.mem_cons_self
    · cases meant
  · exact returns_getWith (returns_answeredOr (returns_pageHistory served.started served.read _) _ _)
      meant.symm
  · refine returns_getWith (returns_answeredOr (returns_pageSources served.read
      (served.fits _ ?_)) _ _) meant.symm
    exact List.mem_append_right _ List.mem_cons_self
  · rw [getCritical] at meant
    split at meant
    · exact served.handlePath (returns_answered ⟨_, rfl⟩) meant.symm
    · cases meant
  · exact returns_getWith (returns_answered (returns_apiEnqueue served.started served.after _))
      meant.symm
  · refine returns_getWith (returns_answered ?_) meant.symm
    exact returns_beforeSending (apiHistory_staysInBounds served.read stack _) fun _ _ => ⟨_, rfl⟩
  · refine returns_getWith (returns_answered ?_) meant.symm
    refine returns_beforeSending (apiSources_staysInBounds served.read stack (served.fits _ ?_))
      fun _ _ => ⟨_, rfl⟩
    exact List.mem_append_right _ (List.mem_cons_of_mem _ List.mem_cons_self)
  · rw [getApiDumpHandled] at meant
    split at meant
    · obtain ⟨_, -, rfl⟩ := Option.map_eq_some_iff.mp meant.symm
      exact returns_answered ⟨_, rfl⟩
    · cases meant
  · exact returns_getStatic meant.symm

/-- **A request that is served gets something sent.** -/
theorem exists_listener (library : Library) (stack : Stack) :
    ∃ answers, listener library stack m request = .ok answers := by
  unfold listener
  cases checked : hostCheck request.host with
  | error refusal =>
      cases refusal with
      | uvEacces => exact ⟨_, rfl⟩
      | parse failure =>
          cases failure with
          | code rc => exact ⟨_, rfl⟩
          | fault fault => exact absurd checked (hostCheck_ne_fault _ fault)
  | ok host =>
      show ∃ answers, dispatch _ = .ok answers
      rw [dispatch]
      cases first : firstHandled (routes library stack m request ++
          [getStatic library stack request]) with
      | none => exact ⟨_, rfl⟩
      | some handled =>
          obtain ⟨⟨sent, rc⟩, rfl⟩ := returns_of_mem served (firstHandled_mem first)
          exact ⟨_, rfl⟩

end Handlers

end HashArchive.Server
