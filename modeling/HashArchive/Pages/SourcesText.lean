import HashArchive.Pages.HistoryTimes
import HashArchive.Util.HashUriVariants

/-!
# The text of the sources page

`page_sources` writes a header with the link in it, and an entry for each response that is shown,
with `source_var` for its variables. The digest is written as hexadecimal digits and as a multihash
into addresses of other sites without encoding, since these are "restricted character sets".

`pageSources_tags` says that the tags and the attribute boundaries of the page depend on the type of
the link and the number of entries only. `pageSources_written_iff` says when the page is written:
the digest of the link must fit the array of `hash_uri_format` when it has a multihash, and the year
of each response that is shown must be an `int`.
-/

set_option autoImplicit false

namespace HashArchive.Pages

open Db Hash Html Markup Templates Url

/-! ## The page -/

/-- The label of the date of a source. -/
def sourceLabel (res : Response) : Str :=
  if res.flags &&& hxResLatest ≠ 0 then activeLabel else obsoleteLabel

/-- `source_var`, with what it writes. -/
def sourceVarFn (stack : Stack) (t : Tm) (res : Response) : TemplateVarFn Page := fun var wr conn =>
  if var = "date".toList then writeValues wr [dateOf t (sourceLabel res) res] conn
  else if var = "url".toList then writeValues wr [linkHtml stack .linkWebUrl (some res.url)] conn
  else if var = "obsolete".toList then
    if res.flags &&& hxResLatest ≠ 0 then (0, conn) else wr "obsolete".toList conn
  else (uvEnoent, conn)

/-- `hex` of `page_sources`. -/
def hexOf (stack : Stack) (obj : HashUri) : Result Str := do
  let hex := stack.uninitializedChars (hashDigestMax * 2 + 1)
  let (hex, _) ← hexEncode obj.buf hex hex.length
  .ok (cString hex)

/-- `multihash` of `page_sources`. -/
def multihashOf (stack : Stack) (obj : HashUri) : Result Str :=
  match hashUriVariant stack obj .linkMultihash uriMax with
  | .error (.code .hashEnotsup) => .ok (strlcpy [] uriMax)
  | rc => rc

/-- `args` of `page_sources`. -/
def sourcesArgs (escaped hashLink : Option Str) (hex multihash : Str) : List (Str × Option Str) :=
  [("query".toList, escaped), ("hash-link".toList, hashLink),
    ("google-url".toList, some ("https://www.google.com/search?q=".toList ++ hex)),
    ("duckduckgo-url".toList, some ("https://duckduckgo.com/?q=".toList ++ hex)),
    ("ipfs-block-url".toList, some (if multihash ≠ [] then
      "https://ipfs.io/api/v0/block/get?arg=".toList ++ multihash else
      "#unsupported-input".toList)),
    ("virustotal-url".toList, some ("https://www.virustotal.com/en/file/".toList ++ hex ++
      "/analysis/".toList))]

/-- What the loop of `page_sources` writes for a response. -/
def writeSource (wr : TemplateWriteFn Page) (stack : Stack) (t : Tm) (entry : Template) (conn : Page)
    (res : Response) : Result Page :=
  -- Skip duplicates
  if res.prev ≠ none then .ok conn
  else templateWriteHTTPChunk wr entry (sourceVarFn stack t res) conn

/-- The body that `page_sources` writes for the responses it has read. -/
def sourcesBody (wr : TemplateWriteFn Page) (memory : ℕ → Bool) (stack : Stack) (t : Tm)
    (obj : HashUri) (URI : Str) (responses : List Response) : Result Str := do
  let header ← templateLoad memory sourcesHeaderHtml
  let footer ← templateLoad memory sourcesFooterHtml
  let entry ← templateLoad memory sourcesEntryHtml
  let _ ← templateLoad memory sourcesNotfoundHtml
  let _ ← templateLoad memory sourcesShortHtml
  let _ ← templateLoad memory sourcesWeakHtml
  let hex ← hexOf stack obj
  let multihash ← multihashOf stack obj
  let escaped ← htmlEncode stack (some URI)
  let hashLink ← directLinkHtml stack obj.type (some URI)
  let args := sourcesArgs escaped hashLink hex multihash
  let conn ← templateWriteHTTPChunk wr header (templateStaticVar args) ([], none)
  let conn ← responses.foldlM (writeSource wr stack t entry) conn
  let conn ← templateWriteHTTPChunk wr footer (templateStaticVar args) conn
  endPage conn

/-- `page_sources`, with the body it writes. -/
def pageSourcesBody (wr : TemplateWriteFn Page) (memory : ℕ → Bool) (stack : Stack) (t : Tm)
    (URI : Str) : DbTxn Str := do
  let obj ← Txn.call (hashUriParse stack URI)
  let responses ← hxGetSources obj (List.replicate configSourcesMax Response.blank)
  Txn.call (sourcesBody wr memory stack t obj URI responses)

/-! ## Restricted character sets -/

theorem quiet_of_alphanum {text : Str} (alphanum : ∀ c ∈ text, c.isAlphanum = true) :
    Quiet text := by
  intro c member
  have inside := alphanum c member
  refine ⟨?_, ?_, ?_⟩ <;> rintro rfl <;> exact absurd inside (by decide)

/-- **The hexadecimal digits** of the bytes that have room. -/
theorem exists_hexOf (stack : Stack) (obj : HashUri) :
    ∃ hex, hexOf stack obj = .ok hex ∧ Quiet hex := by
  obtain ⟨unwritten, written⟩ := hexEncode_spec obj.buf
    (stack.uninitializedChars (hashDigestMax * 2 + 1)) (Nat.succ_pos (hashDigestMax * 2)) (by simp)
  refine ⟨_, ?_, quiet_of_alphanum (@hexText_alphanum (obj.buf.take hashDigestMax))⟩
  simp only [hexOf, Stack.length_uninitializedChars, written, Result.ok_bind,
    cString_append_nul (nul_not_mem_hexText _)]
  rfl

theorem alphanum_of_mem_digits {c : Char} (member : c ∈ Base58.b58digitsOrdered) :
    c.isAlphanum = true :=
  List.all_eq_true.mp (show Base58.b58digitsOrdered.all Char.isAlphanum = true by decide) c
    member

section Multihash

variable (stack : Stack) {obj : HashUri} {algo : HashAlgo} (known : obj.algo = some algo)
include known

theorem multihashOf_uncoded (uncoded : multihashAlgoEncode algo = 0) :
    multihashOf stack obj = .ok [] := by
  obtain ⟨type, _, buf⟩ := obj
  obtain rfl := known
  have first : 0 < (stack.uninitialized (2 + hashDigestMax)).length := by simp [hashDigestMax]
  have unsupported : hashUriVariant stack ⟨type, some algo, buf⟩ .linkMultihash uriMax =
      .error (.code .hashEnotsup) := by
    simp only [hashUriVariant, hashUriFormat, assertThat, gt_iff_lt, if_pos uriMax_pos,
      Result.ok_bind, uncoded, writeCell_of_lt first, if_true, Result.error_bind]
  rw [multihashOf, unsupported]
  rfl

/-- **The multihash** of a digest that fits the array. -/
theorem exists_multihashOf (fits : multihashAlgoEncode algo = 0 ∨ obj.buf.length ≤ hashDigestMax) :
    ∃ multihash, multihashOf stack obj = .ok multihash ∧ Quiet multihash := by
  by_cases uncoded : multihashAlgoEncode algo = 0
  · exact ⟨[], multihashOf_uncoded stack known uncoded, fun _ member => nomatch member⟩
  have short := fits.resolve_left uncoded
  obtain ⟨type, _, buf⟩ := obj
  obtain rfl := known
  have first : (multihashBytes algo buf).takeWhile (· == 0) = [] :=
    List.takeWhile_cons_of_neg (by simpa using uncoded)
  have room : (multihashBytes algo buf).length * 138 / 100 + 1 <
      (2 + hashDigestMax) * 8 / 5 + 1 + 1 := by
    simp only [multihashBytes, List.length_cons, hashDigestMax] at short ⊢
    omega
  obtain ⟨digits, small, -, -, encoded⟩ := Base58.exists_b58enc_digits first room
  have formatted : hashUriVariant stack ⟨type, some algo, buf⟩ .linkMultihash uriMax =
      .ok (snprintf (digits.map Base58.digitChar) uriMax).1 := by
    rw [hashUriVariant, hashUriFormat_multihash_eq stack uncoded uriMax_pos short, b58Encode,
      encoded]
    rfl
  refine ⟨_, by rw [multihashOf, formatted], quiet_of_alphanum fun c member => ?_⟩
  obtain ⟨digit, inDigits, rfl⟩ := List.mem_map.mp (List.mem_of_mem_take member)
  exact alphanum_of_mem_digits (digitChar_mem digit (small digit inDigits))

/-- A longer digest is copied past its end. -/
theorem multihashOf_overflow (coded : multihashAlgoEncode algo ≠ 0)
    (long : hashDigestMax < obj.buf.length) :
    multihashOf stack obj = .error (.fault .outOfBounds) := by
  obtain ⟨type, _, buf⟩ := obj
  obtain rfl := known
  have overflow : hashUriVariant stack ⟨type, some algo, buf⟩ .linkMultihash uriMax =
      .error (.fault .outOfBounds) := by
    rw [hashUriVariant, hashUriFormat_multihash_overflow stack coded uriMax_pos long]
    rfl
  rw [multihashOf, overflow]

end Multihash

/-- **No encoding is needed** for a multihash. -/
theorem quiet_of_multihashOf {stack : Stack} {obj : HashUri} {multihash : Str}
    (written : multihashOf stack obj = .ok multihash) : Quiet multihash := by
  cases known : obj.algo with
  | none =>
      rw [multihashOf, hashUriVariant, hashUriFormat, known] at written
      cases written
  | some algo =>
      by_cases coded : multihashAlgoEncode algo ≠ 0 ∧ hashDigestMax < obj.buf.length
      · rw [multihashOf_overflow stack known coded.1 coded.2] at written
        cases written
      · obtain ⟨other, done, quiet⟩ := exists_multihashOf stack known (by
          rw [not_and_or, not_not, not_lt] at coded
          exact coded)
        rw [written] at done
        cases done
        exact quiet

/-! ## Entries -/

/-- What `source_var` gives. -/
def sourceValue (stack : Stack) (t : Tm) (res : Response) (name : Str) : Value :=
  if name = "date".toList then valueOf [dateOf t (sourceLabel res) res]
  else if name = "url".toList then valueOf [linkHtml stack .linkWebUrl (some res.url)]
  else (if res.flags &&& hxResLatest ≠ 0 then [] else "obsolete".toList, none)

/-- The variables of an entry without a text. -/
def blankSourceVar (name : Str) : Str :=
  if name = "date".toList then blankDate
  else if name = "url".toList then blankLink .linkWebUrl
  else []

/-- An entry without a text. -/
def blankSource : Str := fillVars blankSourceVar sourcesEntryHtml

section Entry

variable {wr : TemplateWriteFn Page} (appends : Appends wr) {stack : Stack} {t : Tm} {res : Response}

/-- The date of a source is printed. -/
def SourceSound (t : Tm) (res : Response) : Prop :=
  ∀ fault, dateOf t (sourceLabel res) res ≠ .error (.fault fault)

theorem notMem_sourceLabel (res : Response) : '<' ∉ sourceLabel res := by
  unfold sourceLabel
  split <;> decide

include appends in
theorem succeeds_sourceVarFn :
    Succeeds (sourceVarFn stack t res) wr (faulty (sourceValue stack t res))
      ["obsolete".toList, "date".toList, "url".toList] := by
  intro name member output fault
  unfold sourceVarFn faulty sourceValue
  by_cases date : name = "date".toList
  · simp only [if_pos date, writeValues_of_appends appends]
    exact ⟨0, Int.le_refl 0, rfl⟩
  by_cases url : name = "url".toList
  · simp only [if_neg date, if_pos url, writeValues_of_appends appends]
    exact ⟨0, Int.le_refl 0, rfl⟩
  have obsolete : name = "obsolete".toList := by
    rcases List.mem_cons.mp member with same | member
    · exact same
    · rcases List.mem_pair.mp member with same | same
      · exact absurd same date
      · exact absurd same url
  simp only [if_neg date, if_neg url, if_pos obsolete, Option.or_none]
  by_cases latest : res.flags &&& hxResLatest ≠ 0
  · simp only [if_pos latest, List.append_nil]
    exact ⟨0, Int.le_refl 0, rfl⟩
  · simp only [if_neg latest]
    exact appends _ _ _

include appends in
/-- **An entry is written** with the tags of the blank one. -/
theorem writes_source {memory : ℕ → Bool} {entry : Template}
    (loaded : templateLoad memory sourcesEntryHtml = .ok entry) :
    Writes (templateWriteHTTPChunk wr entry (sourceVarFn stack t res)) (SourceSound t res)
      blankSource := by
  obtain ⟨link, linked, sameLink⟩ := exists_linkHtml stack .linkWebUrl res.url
  have isObsolete : sourceValue stack t res "obsolete".toList =
      (if res.flags &&& hxResLatest ≠ 0 then [] else "obsolete".toList, none) := rfl
  have isDate : sourceValue stack t res "date".toList =
      valueOf ([res].map fun res => dateOf t (sourceLabel res) res) := if_pos rfl
  have isUrl : sourceValue stack t res "url".toList = (link, none) := by
    rw [sourceValue, if_neg (by decide), if_pos rfl, linked]
    show (link ++ [], none) = _
    rw [List.append_nil]
  have blankObsolete : blankSourceVar "obsolete".toList = [] := rfl
  have blankIsDate : blankSourceVar "date".toList = blankDate := if_pos rfl
  have blankUrl : blankSourceVar "url".toList = blankLink .linkWebUrl := by
    rw [blankSourceVar, if_neg (by decide), if_pos rfl]
  have dates : (valueOf ([res].map fun res => dateOf t (sourceLabel res) res)).2 = none ↔
      SourceSound t res := by
    rw [valueOf_noFault_iff, List.map_singleton]
    exact List.forall_mem_singleton
  have quietClass : Quiet (if res.flags &&& hxResLatest ≠ 0 then [] else "obsolete".toList) := by
    split
    · exact fun _ member => nomatch member
    · exact quiet_of_alphanum (List.all_eq_true.mp (by decide))
  have written := @writes_template _ appends _ _ _ _ _ _ blankSourceVar sourcesHoles.entry loaded
    (@succeeds_sourceVarFn _ appends stack t res) ?_
  · refine written.congr ?_ rfl
    simp only [List.forall_mem_cons, List.not_mem_nil, false_implies, implies_true, and_true,
      isObsolete, isDate, isUrl, true_and]
    exact dates
  · simp only [List.forall_mem_cons, List.not_mem_nil, false_implies, implies_true, and_true,
      isObsolete, isDate, isUrl, blankObsolete, blankIsDate, blankUrl]
    refine ⟨fun _ => fitsAt_quoted quietClass, fun noFault => fitsAt_block ?_,
      fun _ => fitsAt_block sameLink⟩
    have one := sameBlock_valueOf
      (fun res _ => likeBlank_dateOf t (notMem_sourceLabel res) res) noFault
    rwa [filterMap_some_const, List.length_singleton, List.replicate_one, List.flatten_singleton]
      at one

end Entry

/-! ## The tags of the page -/

/-- The variables of the header without a text. -/
def blankSourcesVar (type : HashUriType) (name : Str) : Str :=
  if name = "hash-link".toList then printf [] ((directLinkFormat type).getD []) else []

/-- A sources page without a text. -/
def blankSources (type : HashUriType) (entries : ℕ) : Str :=
  fillVars (blankSourcesVar type) sourcesHeaderHtml ++
    ((List.replicate entries blankSource).flatten ++
      fillVars (blankSourcesVar type) sourcesFooterHtml)

theorem directLinkFormat_of_parse {stack : Stack} {URI : Str} {obj : HashUri}
    (parsed : hashUriParse stack URI = .ok obj) :
    ∃ format, directLinkFormat obj.type = some format := by
  have known : ∀ type ∈ digitLinkTypes, (directLinkFormat type).isSome = true := by decide
  rcases type_of_hashUriParse parsed with digits | ⟨multihash, -⟩
  · exact Option.isSome_iff_exists.mp (known _ digits)
  · rw [multihash]
    exact ⟨_, rfl⟩

theorem flatMap_const {α β : Type} (block : List β) (items : List α) :
    items.flatMap (fun _ => block) = (List.replicate items.length block).flatten := by
  rw [List.flatMap_def, List.map_const']

section Page

variable {wr : TemplateWriteFn Page} (appends : Appends wr) {memory : ℕ → Bool} {stack : Stack}
  {t : Tm}
include appends

theorem writes_sourcesHeader {type : HashUriType} {format escaped link hex multihash : Str}
    (known : directLinkFormat type = some format) {header : Template}
    (loaded : templateLoad memory sourcesHeaderHtml = .ok header) (quiet : Quiet escaped)
    (same : SameBlock link (printf [] format)) (quietHex : Quiet hex)
    (quietMultihash : Quiet multihash) :
    Writes (templateWriteHTTPChunk wr header
        (templateStaticVar (sourcesArgs (some escaped) (some link) hex multihash)))
      True (fillVars (blankSourcesVar type) sourcesHeaderHtml) := by
  have blankHashLink : blankSourcesVar type "hash-link".toList = printf [] format := by
    rw [blankSourcesVar, if_pos rfl, known]
    rfl
  refine writes_args appends sourcesHoles.header loaded ?_
  simp only [List.forall_mem_cons, List.not_mem_nil, false_implies, implies_true, and_true]
  refine ⟨⟨escaped, rfl, fitsAt_text quiet⟩, ⟨escaped, rfl, fitsAt_quoted quiet⟩,
    ⟨link, rfl, ?_⟩, ⟨_, rfl, fitsAt_quoted ?_⟩, ⟨_, rfl, fitsAt_quoted ?_⟩,
    ⟨_, rfl, fitsAt_quoted ?_⟩, ⟨_, rfl, fitsAt_quoted ?_⟩⟩
  · rw [blankHashLink]
    exact fitsAt_block same
  · exact (Quiet.of_all (by decide +kernel)).append quietHex
  · exact (Quiet.of_all (by decide +kernel)).append quietHex
  · split
    · exact (Quiet.of_all (by decide +kernel)).append quietMultihash
    · exact Quiet.of_all (by decide +kernel)
  · exact ((Quiet.of_all (by decide +kernel)).append quietHex).append
      (Quiet.of_all (by decide +kernel))

/-- **The body of the page**, with its templates loaded, when its multihash is written. -/
theorem sourcesBody_of_loaded {obj : HashUri} {URI multihash : Str}
    {header footer entry notfound short weak : Template}
    (loadedHeader : templateLoad memory sourcesHeaderHtml = .ok header)
    (loadedFooter : templateLoad memory sourcesFooterHtml = .ok footer)
    (loadedEntry : templateLoad memory sourcesEntryHtml = .ok entry)
    (loadedNotfound : templateLoad memory sourcesNotfoundHtml = .ok notfound)
    (loadedShort : templateLoad memory sourcesShortHtml = .ok short)
    (loadedWeak : templateLoad memory sourcesWeakHtml = .ok weak)
    (parsed : hashUriParse stack URI = .ok obj) (encoded : multihashOf stack obj = .ok multihash)
    (responses : List Response) :
    ((∀ res ∈ shown responses, SourceSound t res) →
      ∃ body, sourcesBody wr memory stack t obj URI responses = .ok body ∧
        SameBlock body (blankSources obj.type (shown responses).length)) ∧
    (¬ (∀ res ∈ shown responses, SourceSound t res) →
      ∃ fault, sourcesBody wr memory stack t obj URI responses = .error (.fault fault)) := by
  obtain ⟨hex, hexWritten, quietHex⟩ := exists_hexOf stack obj
  obtain ⟨escaped, encodes, quiet⟩ := htmlEncode_quiet stack URI
  obtain ⟨format, known⟩ := directLinkFormat_of_parse parsed
  obtain ⟨link, linked, same⟩ := exists_directLinkHtml stack known URI
  have writtenEntries : Writes (fun conn => responses.foldlM (writeSource wr stack t entry) conn)
      (∀ res ∈ shown responses, SourceSound t res)
      ((shown responses).flatMap fun _ => blankSource) :=
    writes_shown (fun res => @writes_source _ appends stack t res _ _ loadedEntry) responses
  have writtenFooter : Writes (templateWriteHTTPChunk wr footer (templateStaticVar
      (sourcesArgs (some escaped) (some link) hex multihash))) True
      (fillVars (blankSourcesVar obj.type) sourcesFooterHtml) :=
    writes_args appends Holes.nil loadedFooter (by simp)
  have page := (writes_sourcesHeader appends known loadedHeader quiet same quietHex
    (quiet_of_multihashOf encoded)).andThen (writtenEntries.andThen writtenFooter)
  have ended := page.endPage
  simp only [true_and, and_true, bind_assoc, flatMap_const] at ended
  simp only [sourcesBody, loadedHeader, loadedFooter, loadedEntry, loadedNotfound, loadedShort,
    loadedWeak, hexWritten, encoded, encodes, linked, Result.ok_bind]
  exact ended

end Page

section Written

variable {wr : TemplateWriteFn Page} (appends : Appends wr) {memory : ℕ → Bool} {stack : Stack}

theorem sourceSound_iff {res : Response} :
    (∀ t, SourceSound t res) ↔ YearFits (timeT res.time) := by
  constructor
  · intro sound
    by_contra wide
    obtain ⟨t, fault, failed⟩ := exists_dateOf_fault (sourceLabel res) wide
    exact sound t fault failed
  · exact fun fits t => dateOf_ne_fault t (sourceLabel res) fits

include appends in
theorem sourcesBody_written_iff (enough : ∀ size, memory size = true) {obj : HashUri} {URI : Str}
    {algo : HashAlgo} (parsed : hashUriParse stack URI = .ok obj) (known : obj.algo = some algo)
    (responses : List Response) :
    (∀ t, ∃ body, sourcesBody wr memory stack t obj URI responses = .ok body) ↔
      (multihashAlgoEncode algo = 0 ∨ obj.buf.length ≤ hashDigestMax) ∧
        ∀ res ∈ shown responses, YearFits (timeT res.time) := by
  obtain ⟨header, loadedHeader⟩ := exists_templateLoad enough sourcesHeaderHtml
  obtain ⟨footer, loadedFooter⟩ := exists_templateLoad enough sourcesFooterHtml
  obtain ⟨entry, loadedEntry⟩ := exists_templateLoad enough sourcesEntryHtml
  obtain ⟨notfound, loadedNotfound⟩ := exists_templateLoad enough sourcesNotfoundHtml
  obtain ⟨short, loadedShort⟩ := exists_templateLoad enough sourcesShortHtml
  obtain ⟨weak, loadedWeak⟩ := exists_templateLoad enough sourcesWeakHtml
  by_cases fits : multihashAlgoEncode algo = 0 ∨ obj.buf.length ≤ hashDigestMax
  · obtain ⟨multihash, encoded, -⟩ := exists_multihashOf stack known fits
    have page (t : Tm) := @sourcesBody_of_loaded wr appends memory stack t _ _ _ _ _ _ _ _ _
      loadedHeader loadedFooter loadedEntry loadedNotfound loadedShort loadedWeak parsed encoded
      responses
    rw [and_iff_right fits]
    constructor
    · intro written res isShown
      rw [← sourceSound_iff]
      intro t
      obtain ⟨body, done⟩ := written t
      by_contra unsound
      obtain ⟨fault, failed⟩ := (page t).2 fun all => unsound (all res isShown)
      rw [done] at failed
      cases failed
    · intro years t
      obtain ⟨body, done, -⟩ := (page t).1 fun res isShown =>
        sourceSound_iff.mpr (years res isShown) t
      exact ⟨body, done⟩
  · refine iff_of_false (fun written => ?_) fun both => fits both.1
    rw [not_or, not_le] at fits
    obtain ⟨body, done⟩ := written ⟨0, 0, 0⟩
    obtain ⟨hex, hexWritten, -⟩ := exists_hexOf stack obj
    simp only [sourcesBody, loadedHeader, loadedFooter, loadedEntry, loadedNotfound, loadedShort,
      loadedWeak, hexWritten, multihashOf_overflow stack known fits.1 fits.2, Result.ok_bind,
      Result.error_bind] at done
    cases done

include appends in
theorem pageSources_written_of_parsed {state : Recording}
    (reached : recording.Reaches Machine.anyStep state) (enough : ∀ size, memory size = true)
    {URI : Str} {obj : HashUri} {algo : HashAlgo} (parsed : hashUriParse stack URI = .ok obj)
    (known : obj.algo = some algo) :
    (∀ t, ∃ body, (pageSourcesBody wr memory stack t URI state.db).1 = .ok body) ↔
      (multihashAlgoEncode algo = 0 ∨ obj.buf.length ≤ hashDigestMax) ∧
        ∀ stored, Matching state.log algo obj.buf stored →
          Among configSourcesMax (Matching state.log algo obj.buf) (Ahead algo) stored →
          (∀ other, Matching state.log algo obj.buf other → other.1.url = stored.1.url →
            ¬ Ahead algo other stored) →
          YearFits (timeT stored.1.time) := by
  have recorded := recorded_of_reaches reached
  obtain ⟨filled, listed, done, slots, unlinked, first⟩ := sourcesLoop_firstOf recorded algo
    obj.buf (List.replicate configSourcesMax Response.blank)
  have read := hxGetSources_of_done known (by decide) done
  rw [List.length_replicate] at first
  have lists := lists_mergeCommonUrls slots
  have heads {i : ℕ} {res : Response} (held : (resMergeCommonUrls filled)[i]? = some res) :=
    prev_eq_none_iff (unlinked (unlinked_blanks _)) held
  have page : (∀ t, ∃ body, (pageSourcesBody wr memory stack t URI state.db).1 = .ok body) ↔
      ∀ t, ∃ body, sourcesBody wr memory stack t obj URI (resMergeCommonUrls filled) = .ok body := by
    refine forall_congr' fun t => exists_congr fun body => ?_
    rw [pageSourcesBody, parsed, Txn.bind_of_ok (Txn.call_apply _ _), Txn.bind_of_ok read,
      Txn.call_apply]
  rw [page, sourcesBody_written_iff appends enough parsed known]
  refine and_congr_right fun _ => ⟨fun years stored matching among isFirst => ?_,
    fun years res isShown => ?_⟩
  · have inListed := (first.mem_iff Ahead.asymm).mpr ⟨matching, among⟩
    obtain ⟨i, atI⟩ := List.getElem?_of_mem inListed
    obtain ⟨res, held, listsI⟩ := exists_slot lists atI
    rw [← listsI.time]
    refine years res (List.mem_filter.mpr ⟨List.mem_of_getElem? held, ?_⟩)
    rw [decide_eq_true_eq, shown_iff lists heads first held atI]
    exact isFirst
  · obtain ⟨member, noPrev⟩ := List.mem_filter.mp isShown
    obtain ⟨i, held⟩ := List.getElem?_of_mem member
    obtain ⟨stored, atI, listsI⟩ := exists_stored lists held
    rw [decide_eq_true_eq, shown_iff lists heads first held atI] at noPrev
    obtain ⟨matching, among⟩ := (first.mem_iff Ahead.asymm).mp (List.mem_of_getElem? atI)
    rw [listsI.time]
    exact years stored matching among noPrev

end Written

end HashArchive.Pages
