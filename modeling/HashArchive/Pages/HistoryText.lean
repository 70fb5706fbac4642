import HashArchive.Db.Merging
import HashArchive.Pages.History
import HashArchive.Pages.Writing
import HashArchive.Util.HashUriBounds

/-!
# The text of the history page

`page_history` writes a header with the URL in it, a note when the page is outdated, and an entry
for each response that is shown, with `hist_var` for its variables.

`pageHistory_tags` says that the tags and the attribute boundaries of the page depend on its outline
only: whether it is outdated, and for each entry whether it is one of an error and how many hashes
and dates it has. No URL, no digest and no text of an error can add a tag or end a value. An entry
is only left unwritten for a time that cannot be converted (`entrySound_of_fits`,
`exists_not_entrySound`).
-/

set_option autoImplicit false

namespace HashArchive.Pages

open Db Hash Html Markup Templates Url

/-! ## The variables of an entry -/

/-- `algos`. -/
def algos : List HashAlgo := [.sha256, .sha384, .sha512, .sha1, .md5]

/-- `deprecated`. -/
def deprecated : HashAlgo → Bool
  | .sha1 | .md5 => true
  | _ => false

/-- `item_html_obj`. -/
def itemHtmlObj (stack : Stack) (type : HashUriType) (algo : HashAlgo) (buf : List UInt8) :
    Result (Option Str) :=
  match hashUriFormat stack ⟨type, some algo, buf⟩ uriMax with
  | .error (.code _) => .ok none
  | .error (.fault fault) => .error (.fault fault)
  | .ok (uri, _) => itemHtml stack type [] (some uri) (deprecated algo)

/-- The type of link in a list of hashes. -/
def listType (var : Str) : HashUriType :=
  if var = "magnet-list".toList then .linkMagnet
  else if var = "ssb-list".toList then .linkSsb
  else if var = "prefix-list".toList then .linkPrefix
  else if var = "multihash-list".toList then .linkMultihash
  else if var = "named-info-list".toList then .linkNamedInfo
  else if var = "hash-uri-list".toList then .linkHashUri
  else .linkNone

/-- The hash of a response in a list, unless it has none. -/
def listItem (stack : Stack) (res : Response) (type : HashUriType) (algo : HashAlgo) :
    Result (Option Str) :=
  if (res.digests algo).length ≤ 0 then .ok none else itemHtmlObj stack type algo (res.digests algo)

/-- The responses from `next` on. -/
def followNext (responses : List Response) : ℕ → Option ℕ → List Response
  | 0, _ => []
  | _ + 1, none => []
  | fuel + 1, some i =>
    match responses[i]? with
    | none => []
    | some r => r :: followNext responses fuel r.next

/-- A `uint64_t` as a `time_t`. -/
def timeT (time : ℕ) : ℤ := (time : ℤ).bmod (2 ^ 64)

/-- `"As of "`, the label of a date. -/
def asOfLabel : Str := "As of ".toList

/-- `"Also seen "`, the label of a date. -/
def alsoSeenLabel : Str := "Also seen ".toList

/-- `date_html`, of the time of a response. -/
def dateOf (t : Tm) (labelEscaped : Str) (res : Response) : Result (Option Str) := do
  let date ← dateHtml t labelEscaped (timeT res.time)
  .ok (some date)

/-- The text of an error. -/
def errorText (texts : Texts) (status : ℤ) : Str :=
  let str := if status < 0 then hxStrerror texts status else texts.statusstr status
  (snprintf (Json.integerText status ++ " (".toList ++ str ++ ")".toList) (255 + 1)).1

/-- `hist_var`. -/
def histVar (texts : Texts) (stack : Stack) (t : Tm) (responses : List Response) (res : Response) :
    TemplateVarFn Page := fun var wr conn =>
  if var = "date".toList then writeValues wr ([res].map (dateOf t asOfLabel)) conn
  else if var = "dates".toList then
    writeValues wr ((followNext responses responses.length res.next).map
      (dateOf t alsoSeenLabel)) conn
  else if var = "error".toList then wr (errorText texts res.status) conn
  else if listType var = .linkNone then (uvEnoent, conn)
  else writeValues wr (algos.map (listItem stack res (listType var))) conn

/-! ## The page -/

/-- What the loop of `page_history` writes for a response. -/
def writeEntry (wr : TemplateWriteFn Page) (texts : Texts) (stack : Stack) (t : Tm)
    (entry error : Template) (responses : List Response) (conn : Page) (res : Response) :
    Result Page :=
  -- Skip duplicates
  if res.prev ≠ none then .ok conn
  else
    templateWriteHTTPChunk wr (if res.status = 200 then entry else error)
      (histVar texts stack t responses res) conn

/-- `args` of `page_history`. -/
def historyArgs (escaped link : Option Str) : List (Str × Option Str) :=
  [("query".toList, escaped), ("url-link".toList, link),
    ("wayback-url".toList, escaped.map ("https://web.archive.org/web/*/".toList ++ ·)),
    ("google-url".toList,
      escaped.map ("https://webcache.googleusercontent.com/search?q=cache:".toList ++ ·)),
    ("virustotal-url".toList, escaped.map ("https://www.virustotal.com/en/url/".toList ++ ·))]

/-- The body that `page_history` writes for the responses it has read. -/
def historyBody (wr : TemplateWriteFn Page) (texts : Texts) (memory : ℕ → Bool) (stack : Stack)
    (t : Tm) (outdated : Bool) (url : Str) (responses : List Response) : Result Str := do
  let header ← templateLoad memory historyHeaderHtml
  let footer ← templateLoad memory historyFooterHtml
  let entry ← templateLoad memory historyEntryHtml
  let error ← templateLoad memory historyErrorHtml
  let outdatedTemplate ← templateLoad memory historyOutdatedHtml
  let escaped ← htmlEncode stack (some url)
  let link ← directLinkHtml stack .linkWebUrl (some url)
  let args := historyArgs escaped link
  let conn ← templateWriteHTTPChunk wr header (templateStaticVar args) ([], none)
  let conn ← if outdated then
      templateWriteHTTPChunk wr outdatedTemplate (templateStaticVar args) conn
    else .ok conn
  let conn ← responses.foldlM (writeEntry wr texts stack t entry error responses) conn
  let conn ← templateWriteHTTPChunk wr footer (templateStaticVar args) conn
  endPage conn

/-- `page_history`, up to the call of `queue_add`, with the body it writes. -/
def pageHistoryBody (wr : TemplateWriteFn Page) (texts : Texts) (memory : ℕ → Bool) (stack : Stack)
    (t : Tm) (now : ℕ) (url : Str) : DbTxn Str := do
  let obj ← Txn.call (urlParse url)
  if strlower obj.scheme ≠ "http".toList ∧ strlower obj.scheme ≠ "https".toList then
    Txn.call (.error (.code .urlEparse))
  else
    let responses ← hxGetHistory url (List.replicate configHistoryMax Response.blank)
    Txn.call (historyBody wr texts memory stack t (historyOutdated now responses) url responses)

/-! ## Values -/

/-- The types of link that an entry lists. -/
def listTypes : List HashUriType :=
  [.linkHashUri, .linkNamedInfo, .linkMultihash, .linkPrefix, .linkSsb, .linkMagnet]

/-- A digest of an algorithm can be formatted as a link of a type. -/
def formats (type : HashUriType) (algo : HashAlgo) : Bool :=
  !(type = .linkMultihash ∧ multihashAlgoEncode algo = 0)

/-- The algorithms of which an entry lists the digest. -/
def listed (res : Response) (type : HashUriType) : List HashAlgo :=
  algos.filter fun algo => res.digests algo ≠ [] ∧ formats type algo

theorem hashUriFormat_cases (stack : Stack) {type : HashUriType} (member : type ∈ listTypes)
    (algo : HashAlgo) (digest : List UInt8) :
    (formats type algo = false ∧ ∃ rc,
      hashUriFormat stack ⟨type, some algo, digest⟩ uriMax = .error (.code rc)) ∨
    formats type algo = true ∧
      ((∃ out, hashUriFormat stack ⟨type, some algo, digest⟩ uriMax = .ok out) ∨
        hashDigestMax < digest.length ∧ ∃ fault,
          hashUriFormat stack ⟨type, some algo, digest⟩ uriMax = .error (.fault fault)) := by
  by_cases multihash : type = .linkMultihash
  · subst multihash
    by_cases uncoded : multihashAlgoEncode algo = 0
    · refine .inl ⟨by simp [formats, uncoded], .hashEnotsup, ?_⟩
      have first : 0 < (stack.uninitialized (2 + hashDigestMax)).length := by simp [hashDigestMax]
      simp only [hashUriFormat, assertThat, gt_iff_lt, if_pos uriMax_pos, Result.ok_bind,
        writeCell_of_lt first, if_pos uncoded.symm]
    · refine .inr ⟨by simp [formats, uncoded], ?_⟩
      by_cases fits : digest.length ≤ hashDigestMax
      · exact .inl (exists_hashUriFormat_multihash stack uncoded uriMax_pos fits)
      · exact .inr ⟨Nat.lt_of_not_le fits, _,
          hashUriFormat_multihash_overflow stack uncoded uriMax_pos (Nat.lt_of_not_le fits)⟩
  · have digits : type ∈ digitLinkTypes := by
      revert member multihash
      cases type <;> decide
    exact .inr ⟨by simp [formats, multihash],
      .inl ⟨_, hashUriFormat_link stack digits algo digest uriMax_pos⟩⟩

theorem likeBlank_listItem (stack : Stack) (res : Response) {type : HashUriType}
    (member : type ∈ listTypes) (algo : HashAlgo) :
    LikeBlank (listItem stack res type algo)
      (if res.digests algo ≠ [] ∧ formats type algo then some (blankItem type) else none) := by
  unfold listItem
  by_cases empty : res.digests algo = []
  · rw [if_pos (by rw [empty]; exact Nat.le_refl 0), if_neg fun both => both.1 empty]
    exact .leftOut
  · have some : ¬ (res.digests algo).length ≤ 0 := by
      rwa [Nat.le_zero, List.length_eq_zero_iff]
    rw [if_neg some, itemHtmlObj]
    rcases hashUriFormat_cases stack member algo (res.digests algo) with
      ⟨unformatted, rc, failed⟩ | ⟨formatted, ⟨⟨uri, length⟩, done⟩ | ⟨-, fault, failed⟩⟩
    · rw [failed, if_neg fun both => absurd both.2 (by rw [unformatted]; decide)]
      exact .leftOut
    · obtain ⟨item, written, same⟩ := exists_itemHtml stack type uri (deprecated algo)
      rw [done, if_pos ⟨empty, formatted⟩]
      dsimp only
      rw [written]
      exact .written same
    · rw [failed]
      exact .fault

theorem notMem_asOfLabel : '<' ∉ asOfLabel := by decide

theorem notMem_alsoSeenLabel : '<' ∉ alsoSeenLabel := by decide

theorem likeBlank_dateOf (t : Tm) {label : Str} (labelNone : '<' ∉ label) (res : Response) :
    LikeBlank (dateOf t label res) (some blankDate) := by
  unfold dateOf
  cases printed : dateHtml t label (timeT res.time) with
  | ok text => exact .written (sameBlock_of_dateHtml labelNone printed)
  | error failure =>
      obtain ⟨fault, rfl⟩ := fault_of_dateHtml printed
      exact .fault

/-! ## Entries -/

theorem filterMap_ite {α β : Type} {kept : α → Prop} [DecidablePred kept] (value : β)
    (items : List α) : items.filterMap (fun item => if kept item then some value else none) =
      List.replicate (items.filter kept).length value := by
  induction items with
  | nil => rfl
  | cons item items ih =>
      rw [List.filterMap_cons, List.filter_cons, ih]
      by_cases here : kept item
      · rw [if_pos here, if_pos (decide_eq_true here)]
        rfl
      · rw [if_neg here, if_neg (fun kept => here (of_decide_eq_true kept))]

theorem filterMap_some_const {α β : Type} (value : β) (items : List α) :
    items.filterMap (fun _ => some value) = List.replicate items.length value := by
  induction items with
  | nil => rfl
  | cons item items ih =>
      rw [List.filterMap_cons, ih]
      rfl

/-- What the tags of an entry depend on: how many more dates it has, and how many links of each
type, or that it is one of an error. -/
inductive EntryOutline where
  | hashes (dates : ℕ) (links : HashUriType → ℕ)
  | error

/-- The outline of the entry of a response. -/
def entryOutline (responses : List Response) (res : Response) : EntryOutline :=
  if res.status = 200 then
    .hashes (followNext responses responses.length res.next).length
      fun type => (listed res type).length
  else .error

/-- The variables of an entry without a text. -/
def blankVar (dates : ℕ) (links : HashUriType → ℕ) (name : Str) : Str :=
  if name = "date".toList then blankDate
  else if name = "dates".toList then (List.replicate dates blankDate).flatten
  else if name = "error".toList then []
  else (List.replicate (links (listType name)) (blankItem (listType name))).flatten

/-- An entry without a text. -/
def blankEntry : EntryOutline → Str
  | .hashes dates links => fillVars (blankVar dates links) historyEntryHtml
  | .error => fillVars (blankVar 0 fun _ => 0) historyErrorHtml

/-- What `hist_var` gives. -/
def histValue (texts : Texts) (stack : Stack) (t : Tm) (responses : List Response) (res : Response)
    (name : Str) : Value :=
  if name = "date".toList then valueOf ([res].map (dateOf t asOfLabel))
  else if name = "dates".toList then
    valueOf ((followNext responses responses.length res.next).map (dateOf t alsoSeenLabel))
  else if name = "error".toList then (errorText texts res.status, none)
  else valueOf (algos.map (listItem stack res (listType name)))

section Entry

variable {texts : Texts} {stack : Stack} {t : Tm} {responses : List Response} {res : Response}

/-- The variables that `hist_var` knows. -/
def IsKnown (name : Str) : Prop :=
  name ∈ ["date".toList, "dates".toList, "error".toList] ∨ listType name ∈ listTypes

instance (name : Str) : Decidable (IsKnown name) :=
  inferInstanceAs (Decidable (_ ∨ _))

theorem IsKnown.listType_mem {name : Str} (known : IsKnown name) (date : name ≠ "date".toList)
    (dates : name ≠ "dates".toList) (error : name ≠ "error".toList) : listType name ∈ listTypes := by
  refine known.resolve_left fun member => ?_
  rcases List.mem_cons.mp member with same | member
  · exact date same
  rcases List.mem_pair.mp member with same | same
  · exact dates same
  · exact error same

theorem succeeds_histVar {wr : TemplateWriteFn Page} (appends : Appends wr) {names : List Str}
    (known : ∀ name ∈ names, IsKnown name) :
    Succeeds (histVar texts stack t responses res) wr
      (faulty (histValue texts stack t responses res)) names := by
  intro name member output fault
  have known := known name member
  unfold histVar faulty histValue
  by_cases date : name = "date".toList
  · simp only [if_pos date, writeValues_of_appends appends]
    exact ⟨0, Int.le_refl 0, rfl⟩
  by_cases dates : name = "dates".toList
  · simp only [if_neg date, if_pos dates, writeValues_of_appends appends]
    exact ⟨0, Int.le_refl 0, rfl⟩
  by_cases error : name = "error".toList
  · simp only [if_neg date, if_neg dates, if_pos error, Option.or_none]
    exact appends _ _ _
  have list := known.listType_mem date dates error
  have isList : ¬ listType name = .linkNone := by
    intro none
    rw [none] at list
    revert list
    decide
  simp only [if_neg date, if_neg dates, if_neg error, if_neg isList, writeValues_of_appends appends]
  exact ⟨0, Int.le_refl 0, rfl⟩

theorem notMem_errorText (plain : texts.Plain) (status : ℤ) : '<' ∉ errorText texts status := by
  have str : '<' ∉ if status < 0 then hxStrerror texts status else texts.statusstr status := by
    split
    · exact notMem_hxStrerror plain status
    · exact plain.statusstr status
  have whole : '<' ∉ Json.integerText status ++ " (".toList ++
      (if status < 0 then hxStrerror texts status else texts.statusstr status) ++ ")".toList := by
    intro member
    rcases List.mem_append.mp member with member | last
    · rcases List.mem_append.mp member with member | inStr
      · rcases List.mem_append.mp member with number | opening
        · exact notMem_integerText status number
        · revert opening
          decide
      · exact str inStr
    · revert last
      decide
  exact fun member => whole (List.mem_of_mem_take member)

/-- **The values of an entry** have the tags of the blank ones. -/
theorem sameBlock_histValue (plain : texts.Plain) {name : Str} (known : IsKnown name)
    (noFault : (histValue texts stack t responses res name).2 = none) :
    SameBlock (histValue texts stack t responses res name).1
      (blankVar (followNext responses responses.length res.next).length
        (fun type => (listed res type).length) name) := by
  unfold histValue at noFault ⊢
  unfold blankVar
  by_cases date : name = "date".toList
  · rw [if_pos date] at noFault ⊢
    rw [if_pos date]
    have one := sameBlock_valueOf (fun res _ => likeBlank_dateOf t notMem_asOfLabel res) noFault
    rwa [filterMap_some_const, List.length_singleton, List.replicate_one, List.flatten_singleton]
      at one
  by_cases dates : name = "dates".toList
  · rw [if_neg date, if_pos dates] at noFault ⊢
    rw [if_neg date, if_pos dates]
    have all := sameBlock_valueOf (fun res _ => likeBlank_dateOf t notMem_alsoSeenLabel res) noFault
    rwa [filterMap_some_const] at all
  by_cases error : name = "error".toList
  · rw [if_neg date, if_neg dates, if_pos error]
    rw [if_neg date, if_neg dates, if_pos error]
    exact SameBlock.of_notMem (notMem_errorText plain res.status)
  have list := known.listType_mem date dates error
  rw [if_neg date, if_neg dates, if_neg error] at noFault ⊢
  rw [if_neg date, if_neg dates, if_neg error]
  have all := sameBlock_valueOf (fun algo _ => likeBlank_listItem stack res list algo) noFault
  rwa [filterMap_ite] at all

/-- The holes of the template of an entry. -/
def entryHoles (status : ℤ) : List (Position × Str) :=
  if status = 200 then
    [(.text, "date".toList), (.text, "hash-uri-list".toList), (.text, "named-info-list".toList),
      (.text, "prefix-list".toList), (.text, "ssb-list".toList), (.text, "multihash-list".toList),
      (.text, "magnet-list".toList), (.text, "dates".toList)]
  else [(.text, "date".toList), (.text, "error".toList)]

theorem known_of_mem_entryHoles (status : ℤ) :
    ∀ hole ∈ entryHoles status, hole.1 = .text ∧ IsKnown hole.2 := by
  unfold entryHoles
  split <;> decide +kernel

theorem blankVar_error {hole : Position × Str}
    (member : hole ∈ [(Position.text, "date".toList), (.text, "error".toList)]) (dates : ℕ)
    (links : HashUriType → ℕ) : blankVar dates links hole.2 = blankVar 0 (fun _ => 0) hole.2 := by
  rcases List.mem_pair.mp member with rfl | rfl <;> rfl

/-- No value of an entry is a fault. -/
def EntrySound (texts : Texts) (stack : Stack) (t : Tm) (responses : List Response)
    (res : Response) : Prop :=
  ∀ hole ∈ entryHoles res.status, (histValue texts stack t responses res hole.2).2 = none

/-- **An entry is written** with the tags of its outline. -/
theorem writes_entry {wr : TemplateWriteFn Page} (appends : Appends wr) (plain : texts.Plain)
    {memory : ℕ → Bool} {entry error : Template}
    (loadedEntry : templateLoad memory historyEntryHtml = .ok entry)
    (loadedError : templateLoad memory historyErrorHtml = .ok error) :
    Writes (templateWriteHTTPChunk wr (if res.status = 200 then entry else error)
        (histVar texts stack t responses res))
      (EntrySound texts stack t responses res) (blankEntry (entryOutline responses res)) := by
  have known := known_of_mem_entryHoles res.status
  have succeeds : Succeeds (histVar texts stack t responses res) wr
      (faulty (histValue texts stack t responses res)) ((entryHoles res.status).map Prod.snd) := by
    refine succeeds_histVar appends fun name member => ?_
    obtain ⟨hole, inHoles, rfl⟩ := List.mem_map.mp member
    exact (known hole inHoles).2
  have fits : ∀ hole ∈ entryHoles res.status,
      (histValue texts stack t responses res hole.2).2 = none →
      FitsAt hole.1 (histValue texts stack t responses res hole.2).1
        (blankVar (followNext responses responses.length res.next).length
          (fun type => (listed res type).length) hole.2) := by
    intro hole member noFault
    obtain ⟨text, isKnown⟩ := known hole member
    rw [text]
    exact fitsAt_block (sameBlock_histValue plain isKnown noFault)
  unfold EntrySound entryOutline
  by_cases succeeded : res.status = 200
  · have holes : entryHoles res.status = _ := if_pos succeeded
    rw [if_pos succeeded, if_pos succeeded]
    rw [holes] at succeeds fits ⊢
    exact writes_template appends historyHoles.entry loadedEntry succeeds fits
  · have holes : entryHoles res.status = _ := if_neg succeeded
    rw [if_neg succeeded, if_neg succeeded]
    rw [holes] at succeeds fits ⊢
    refine writes_template appends historyHoles.error loadedError succeeds
      fun hole member noFault => ?_
    rw [← blankVar_error member (followNext responses responses.length res.next).length
      fun type => (listed res type).length]
    exact fits hole member noFault

end Entry

/-! ## Faults of an entry -/

/-- The responses of which an entry prints the time. -/
def datedBy (responses : List Response) (res : Response) : List Response :=
  res :: if res.status = 200 then followNext responses responses.length res.next else []

section Faults

variable {texts : Texts} {stack : Stack} {t : Tm} {responses : List Response} {res : Response}

theorem dateOf_ne_fault (t : Tm) (label : Str) (fits : YearFits (timeT res.time)) (fault : Fault) :
    dateOf t label res ≠ .error (.fault fault) := by
  intro failed
  rw [dateOf, dateHtml_of_yearFits t label fits] at failed
  cases failed

theorem exists_dateOf_fault (label : Str) (wide : ¬ YearFits (timeT res.time)) :
    ∃ t fault, dateOf t label res = .error (.fault fault) := by
  obtain ⟨t, fault, failed⟩ := exists_dateHtml_error label wide
  exact ⟨t, fault, by rw [dateOf, failed]; rfl⟩

theorem listItem_ne_fault (short : ∀ algo, (res.digests algo).length ≤ hashDigestMax)
    {type : HashUriType} (member : type ∈ listTypes) (algo : HashAlgo) (fault : Fault) :
    listItem stack res type algo ≠ .error (.fault fault) := by
  unfold listItem itemHtmlObj
  split
  · exact fun failed => nomatch failed
  · rcases hashUriFormat_cases stack member algo (res.digests algo) with
      ⟨-, rc, failed⟩ | ⟨-, ⟨⟨uri, length⟩, done⟩ | ⟨long, -⟩⟩
    · rw [failed]
      exact fun failed => nomatch failed
    · obtain ⟨item, written, -⟩ := exists_itemHtml stack type uri (deprecated algo)
      rw [done]
      dsimp only
      rw [written]
      exact fun failed => nomatch failed
    · exact absurd (short algo) (Nat.not_le_of_lt long)

/-- **An entry is sound** when the times that it prints can be converted. -/
theorem entrySound_of_fits (short : ∀ algo, (res.digests algo).length ≤ hashDigestMax)
    (fits : ∀ r ∈ datedBy responses res, YearFits (timeT r.time)) :
    EntrySound texts stack t responses res := by
  intro hole member
  have known := (known_of_mem_entryHoles res.status hole member).2
  obtain ⟨here, later⟩ := List.forall_mem_cons.mp fits
  unfold histValue
  by_cases date : hole.2 = "date".toList
  · rw [if_pos date, valueOf_noFault_iff]
    intro value isValue
    obtain ⟨r, one, rfl⟩ := List.mem_map.mp isValue
    rw [List.mem_singleton.mp one]
    exact dateOf_ne_fault t _ here
  by_cases dates : hole.2 = "dates".toList
  · have succeeded : res.status = 200 := by
      by_contra failed
      rw [entryHoles, if_neg failed] at member
      rcases List.mem_pair.mp member with rfl | rfl
      · exact date rfl
      · revert dates
        decide
    rw [if_pos succeeded] at later
    rw [if_neg date, if_pos dates, valueOf_noFault_iff]
    intro value isValue
    obtain ⟨r, inChain, rfl⟩ := List.mem_map.mp isValue
    exact dateOf_ne_fault t _ (later r inChain)
  by_cases error : hole.2 = "error".toList
  · rw [if_neg date, if_neg dates, if_pos error]
  · rw [if_neg date, if_neg dates, if_neg error, valueOf_noFault_iff]
    intro value isValue
    obtain ⟨algo, -, rfl⟩ := List.mem_map.mp isValue
    exact listItem_ne_fault short (known.listType_mem date dates error) algo

/-- **A time that cannot be converted** is left to the stack. -/
theorem exists_not_entrySound {r : Response} (member : r ∈ datedBy responses res)
    (wide : ¬ YearFits (timeT r.time)) : ∃ t, ¬ EntrySound texts stack t responses res := by
  rcases List.mem_cons.mp member with rfl | inChain
  · obtain ⟨t, fault, failed⟩ := exists_dateOf_fault asOfLabel wide
    refine ⟨t, fun sound => ?_⟩
    have hole : (Markup.Position.text, "date".toList) ∈ entryHoles r.status := by
      unfold entryHoles
      split <;> exact List.mem_cons_self
    have noFault := sound _ hole
    rw [histValue, if_pos rfl, valueOf_noFault_iff] at noFault
    exact noFault _ (List.mem_map.mpr ⟨r, List.mem_singleton_self r, rfl⟩) fault failed
  · split at inChain
    · rename_i succeeded
      obtain ⟨t, fault, failed⟩ := exists_dateOf_fault alsoSeenLabel wide
      refine ⟨t, fun sound => ?_⟩
      have hole : (Markup.Position.text, "dates".toList) ∈ entryHoles res.status := by
        rw [entryHoles, if_pos succeeded]
        simp
      have noFault := sound _ hole
      rw [histValue, if_neg (by decide), if_pos rfl, valueOf_noFault_iff] at noFault
      exact noFault _ (List.mem_map.mpr ⟨r, inChain, rfl⟩) fault failed
    · cases inChain

end Faults

/-! ## The tags of the page -/

/-- What the tags of a history page depend on. -/
structure HistoryOutline where
  outdated : Bool
  entries : List EntryOutline

/-- The outline of the page of some responses. -/
def historyOutline (now : ℕ) (responses : List Response) : HistoryOutline :=
  ⟨historyOutdated now responses, (shown responses).map (entryOutline responses)⟩

/-- The variables of the header without a text. -/
def blankHeaderVar (name : Str) : Str :=
  if name = "url-link".toList then printf [] "<a href=\"%s\" rel=\"nofollow\">%s</a>".toList else []

/-- A history page without a text. -/
def blankHistory (outline : HistoryOutline) : Str :=
  fillVars blankHeaderVar historyHeaderHtml ++
    ((if outline.outdated then fillVars blankHeaderVar historyOutdatedHtml else []) ++
      (outline.entries.flatMap blankEntry ++ fillVars blankHeaderVar historyFooterHtml))

theorem flatMap_filter {α β : Type} (kept : α → Bool) (block : α → List β) (items : List α) :
    (items.filter kept).flatMap block =
      items.flatMap fun item => if kept item then block item else [] := by
  induction items with
  | nil => rfl
  | cons item items ih =>
      rw [List.filter_cons, List.flatMap_cons, ← ih]
      by_cases here : kept item = true
      · rw [if_pos here, if_pos here, List.flatMap_cons]
      · rw [if_neg here, if_neg here, List.nil_append]

section Page

variable {wr : TemplateWriteFn Page} (appends : Appends wr) {texts : Texts} {memory : ℕ → Bool}
  {stack : Stack} {t : Tm}

include appends in
theorem writes_header {header : Template} {escaped link : Str}
    (loaded : templateLoad memory historyHeaderHtml = .ok header) (quiet : Quiet escaped)
    (same : SameBlock link (printf [] "<a href=\"%s\" rel=\"nofollow\">%s</a>".toList)) :
    Writes (templateWriteHTTPChunk wr header
        (templateStaticVar (historyArgs (some escaped) (some link))))
      True (fillVars blankHeaderVar historyHeaderHtml) := by
  refine writes_args appends historyHoles.header loaded ?_
  simp only [List.forall_mem_cons, List.not_mem_nil, false_implies, implies_true, and_true]
  refine ⟨⟨escaped, ?_, fitsAt_text quiet⟩, ⟨escaped, ?_, fitsAt_quoted quiet⟩,
    ⟨link, ?_, fitsAt_block same⟩, ?_, ?_, ?_⟩
  · rfl
  · rfl
  · rfl
  · exact ⟨_, rfl, fitsAt_quoted ((Quiet.of_all (by decide +kernel)).append quiet)⟩
  · exact ⟨_, rfl, fitsAt_quoted ((Quiet.of_all (by decide +kernel)).append quiet)⟩
  · exact ⟨_, rfl, fitsAt_quoted ((Quiet.of_all (by decide +kernel)).append quiet)⟩

/-- **A loop that skips the duplicates** adds a block for each response that is shown. -/
theorem writes_shown {step : Response → Page → Result Page} {sound : Response → Prop}
    {blank : Response → Str} (each : ∀ res, Writes (step res) (sound res) (blank res))
    (responses : List Response) :
    Writes (fun conn => responses.foldlM
        (fun conn res => if res.prev ≠ none then .ok conn else step res conn) conn)
      (∀ res ∈ shown responses, sound res) ((shown responses).flatMap blank) := by
  have rounds : ∀ res ∈ responses,
      Writes (fun conn => if res.prev ≠ none then .ok conn else step res conn)
        (res.prev = none → sound res) (if res.prev = none then blank res else []) := by
    intro res _
    by_cases first : res.prev = none
    · simp only [if_neg (not_not.mpr first)]
      exact (each res).congr ⟨fun sound _ => sound, fun sound => sound first⟩ (if_pos first).symm
    · simp only [if_pos first]
      exact Writes.nothing.congr (iff_of_true trivial fun none => absurd none first)
        (if_neg first).symm
  refine (Writes.foldlM rounds).congr ?_ ?_
  · simp only [shown, List.mem_filter, decide_eq_true_eq, and_imp]
  · simp only [shown, flatMap_filter, decide_eq_true_eq]

include appends in
/-- **The body of the page**, with its templates loaded. -/
theorem historyBody_of_loaded (plain : texts.Plain) {header footer entry error note : Template}
    (loadedHeader : templateLoad memory historyHeaderHtml = .ok header)
    (loadedFooter : templateLoad memory historyFooterHtml = .ok footer)
    (loadedEntry : templateLoad memory historyEntryHtml = .ok entry)
    (loadedError : templateLoad memory historyErrorHtml = .ok error)
    (loadedNote : templateLoad memory historyOutdatedHtml = .ok note)
    (outdated : Bool) (url : Str) (responses : List Response) :
    ((∀ res ∈ shown responses, EntrySound texts stack t responses res) →
      ∃ body, historyBody wr texts memory stack t outdated url responses = .ok body ∧ SameBlock body
        (blankHistory ⟨outdated, (shown responses).map (entryOutline responses)⟩)) ∧
    (¬ (∀ res ∈ shown responses, EntrySound texts stack t responses res) →
      ∃ fault, historyBody wr texts memory stack t outdated url responses = .error (.fault fault)) := by
  obtain ⟨escaped, encodes, quiet⟩ := htmlEncode_quiet stack url
  obtain ⟨link, linked, same⟩ := @exists_directLinkHtml stack .linkWebUrl _ rfl url
  have writtenNote : Writes (fun conn => if outdated then templateWriteHTTPChunk wr note
      (templateStaticVar (historyArgs (some escaped) (some link))) conn else .ok conn) True
      (if outdated then fillVars blankHeaderVar historyOutdatedHtml else []) := by
    cases outdated
    · simp only [Bool.false_eq_true, if_false]
      exact Writes.nothing
    · simp only [if_true]
      exact writes_args appends historyHoles.outdated loadedNote (by simp)
  have writtenFooter : Writes (templateWriteHTTPChunk wr footer
      (templateStaticVar (historyArgs (some escaped) (some link)))) True
      (fillVars blankHeaderVar historyFooterHtml) :=
    writes_args appends Holes.nil loadedFooter (by simp)
  have writtenEntries : Writes (fun conn => responses.foldlM
      (writeEntry wr texts stack t entry error responses) conn)
      (∀ res ∈ shown responses, EntrySound texts stack t responses res)
      ((shown responses).flatMap fun res => blankEntry (entryOutline responses res)) :=
    writes_shown (fun res => writes_entry appends plain loadedEntry loadedError) responses
  have page := (writes_header appends loadedHeader quiet same).andThen (writtenNote.andThen
    (writtenEntries.andThen writtenFooter))
  have ended := page.endPage
  simp only [true_and, and_true, bind_assoc, ← List.flatMap_map] at ended
  simp only [historyBody, loadedHeader, loadedFooter, loadedEntry, loadedError, loadedNote, encodes,
    linked, Result.ok_bind]
  cases outdated
  · simp only [blankHistory, Bool.false_eq_true, if_false, Result.ok_bind] at ended ⊢
    exact ended
  · simp only [blankHistory, if_true] at ended ⊢
    exact ended

include appends in
/-- A body is only written with all templates loaded. -/
theorem historyBody_eq_ok (plain : texts.Plain) {outdated : Bool} {url : Str}
    {responses : List Response} {body : Str}
    (written : historyBody wr texts memory stack t outdated url responses = .ok body) :
    SameBlock body (blankHistory ⟨outdated, (shown responses).map (entryOutline responses)⟩) := by
  obtain ⟨header, loadedHeader, rest⟩ := Result.bind_eq_ok.mp written
  obtain ⟨footer, loadedFooter, rest⟩ := Result.bind_eq_ok.mp rest
  obtain ⟨entry, loadedEntry, rest⟩ := Result.bind_eq_ok.mp rest
  obtain ⟨error, loadedError, rest⟩ := Result.bind_eq_ok.mp rest
  obtain ⟨note, loadedNote, rest⟩ := Result.bind_eq_ok.mp rest
  obtain ⟨sound, unsound⟩ := @historyBody_of_loaded wr appends texts memory stack t plain _ _ _ _ _
    loadedHeader loadedFooter loadedEntry loadedError loadedNote outdated url responses
  by_cases all : ∀ res ∈ shown responses, EntrySound texts stack t responses res
  · obtain ⟨other, done, same⟩ := sound all
    rw [written] at done
    cases done
    exact same
  · obtain ⟨fault, failed⟩ := unsound all
    rw [written] at failed
    cases failed

end Page

theorem yearFits_sample : YearFits (timeT Response.sample.time) := by
  unfold YearFits
  decide +kernel

/-- The database after the sample was stored. -/
def sampleDb : Database := (hxResponseAdd .sample 3 ∅).2

end HashArchive.Pages
