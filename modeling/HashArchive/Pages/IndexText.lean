import HashArchive.Db.Recent
import HashArchive.Pages.Writing
import HashArchive.Util.HashUriVariants

/-!
# The text of the front page

`page_index` writes `index.html` with links to examples, to the URLs of the responses that were
stored most recently, and to some critical URLs. What is stored comes from anybody who asks for a
URL to be archived.

`pageIndex_lists` says that the page is written as long as its chunks are, and that it is the same
for each archive but for one list, which stands in text: the links to the latest ten URLs that were
fetched, each with its URL encoded. `parseError_tags` says that the page for what is neither a URL
nor a hash has the same tags whatever was asked for.
-/

set_option autoImplicit false

namespace HashArchive.Pages

open Db Hash Html Markup Templates

/-! ## The page -/

/-- `CONFIG_HOSTNAME_PUBLIC`. -/
def configHostnamePublic : Str := "hash-archive.org".toList

/-- `example_url`. -/
def exampleUrl : Str :=
  "https://torrents.linuxmint.com/torrents/linuxmint-18-cinnamon-64bit.iso.torrent".toList

/-- `example_hash_uri`. -/
def exampleHashUri : Str :=
  "hash://sha256/030d8c2d6b7163a482865716958ca03806dfde99a309c927e56aa9962afbb95d".toList

/-- `critical`. -/
def critical : List Str :=
  ["https://ftp.heanet.ie/mirrors/linuxmint.com/stable/18/linuxmint-18-cinnamon-64bit.iso".toList,
    "https://code.jquery.com/jquery-2.2.3.min.js".toList,
    "https://ajax.googleapis.com/ajax/libs/jquery/2.1.4/jquery.min.js".toList,
    "https://ftp-master.debian.org/keys/archive-key-8.asc".toList,
    "http://heanet.dl.sourceforge.net/project/keepass/KeePass%202.x/2.32/KeePass-2.32.zip".toList,
    "http://openwall.com/signatures/openwall-signatures.asc".toList,
    "http://download1.rpmfusion.org/free/fedora/rpmfusion-free-release-23.noarch.rpm".toList]

/-- The static arrays of `page_index.c`. -/
structure Examples where
  exampleNamedInfo : Str
  examplePrefix : Str
  exampleMultihash : Str
  exampleSsb : Str
  exampleMagnet : Str

/-- `assert(rc >= 0)`, after a call. -/
def assertRc {α : Type} : Result α → Result α
  | .error (.code _) => .error (.fault .assertion)
  | rc => rc

theorem assertRc_ok {α : Type} (value : α) : assertRc (.ok value) = .ok value := rfl

/-- What `page_index` writes into its static arrays. -/
def examplesOf (stack : Stack) : Result Examples := do
  let obj ← assertRc (hashUriParse stack exampleHashUri)
  let exampleNamedInfo ← assertRc (hashUriVariant stack obj .linkNamedInfo uriMax)
  let examplePrefix ← assertRc (hashUriVariant stack obj .linkPrefix uriMax)
  let exampleMultihash ← assertRc (hashUriVariant stack obj .linkMultihash uriMax)
  let exampleSsb ← assertRc (hashUriVariant stack obj .linkSsb uriMax)
  let exampleMagnet ← assertRc (hashUriVariant stack obj .linkMagnet uriMax)
  .ok ⟨exampleNamedInfo, examplePrefix, exampleMultihash, exampleSsb, exampleMagnet⟩

/-- `write_link`. -/
def writeLink (stack : Stack) (wr : TemplateWriteFn Page) (type : HashUriType) (uriUnsafe : Str)
    (conn : Page) : ℤ × Page :=
  match linkHtml stack type (some uriUnsafe) with
  | .ok (some x) => wr x conn
  | .ok none | .error (.code _) => (uvEnomem.1, conn)
  | .error (.fault fault) => (0, conn.1, conn.2.or (some fault))

/-- The loops of `template_var`. -/
def writeItems (stack : Stack) (wr : TemplateWriteFn Page) : List Str → Page → ℤ × Page
  | [], conn => (0, conn)
  | url :: urls, conn =>
    match itemHtml stack .linkWebUrl [] (some url) false with
    | .ok (some x) =>
      let (rc, conn) := wr x conn
      if rc < 0 then (rc, conn) else writeItems stack wr urls conn
    | .ok none | .error (.code _) => (uvEnomem.1, conn)
    | .error (.fault fault) => (0, conn.1, conn.2.or (some fault))

/-- The variables of `template_var` that are a link, with its type and its URI. -/
def exampleLinks (examples : Examples) : List (Str × HashUriType × Str) :=
  [("web-url-example".toList, .linkWebUrl, exampleUrl),
    ("hash-uri-example".toList, .linkHashUri, exampleHashUri),
    ("named-info-example".toList, .linkNamedInfo, examples.exampleNamedInfo),
    ("multihash-example".toList, .linkMultihash, examples.exampleMultihash),
    ("prefix-example".toList, .linkPrefix, examples.examplePrefix),
    ("ssb-example".toList, .linkSsb, examples.exampleSsb),
    ("magnet-example".toList, .linkMagnet, examples.exampleMagnet)]

/-- `template_var`, with what `hx_get_recent` gives. -/
def templateVar (stack : Stack) (examples : Examples) (recent : Result (List Response)) :
    TemplateVarFn Page := fun var wr conn =>
  match (exampleLinks examples).lookup var with
  | some (type, uriUnsafe) => writeLink stack wr type uriUnsafe conn
  | none =>
    if var = "recent-list".toList then
      match recent with
      | .ok recent => writeItems stack wr (recent.map Response.url) conn
      | .error (.code _) => (0, conn)
      | .error (.fault fault) => (0, conn.1, conn.2.or (some fault))
    else if var = "critical-list".toList then writeItems stack wr critical conn
    else if var = "host".toList then wr configHostnamePublic conn
    else (uvEnoent, conn)

/-- The body that `page_index` writes. The array of responses is not initialized. -/
def pageIndexBody (wr : TemplateWriteFn Page) (memory : ℕ → Bool) (stack : Stack)
    (recent : List Response) (db : Database) : Result Str := do
  let index ← templateLoad memory indexHtml
  let examples ← examplesOf stack
  let conn ← templateWriteHTTPChunk wr index (templateVar stack examples (hxGetRecent recent db).1)
    ([], none)
  endPage conn

/-! ## Examples -/

/-- The digest of the example. -/
def exampleDigest : List UInt8 :=
  [0x03, 0x0d, 0x8c, 0x2d, 0x6b, 0x71, 0x63, 0xa4, 0x82, 0x86, 0x57, 0x16, 0x95, 0x8c, 0xa0, 0x38,
    0x06, 0xdf, 0xde, 0x99, 0xa3, 0x09, 0xc9, 0x27, 0xe5, 0x6a, 0xa9, 0x96, 0x2a, 0xfb, 0xb9, 0x5d]

theorem exampleHashUri_eq : exampleHashUri = linkText .linkHashUri .sha256 exampleDigest := by
  rfl

/-- **The assertions on the examples hold.** -/
theorem exists_examplesOf (stack : Stack) : ∃ examples, examplesOf stack = .ok examples := by
  have parsed : hashUriParse stack exampleHashUri =
      .ok ⟨.linkHashUri, some .sha256, exampleDigest⟩ := by
    rw [exampleHashUri_eq, hashUriParse_linkText stack (show .linkHashUri ∈ digitLinkTypes by decide)]
  have variant {type : HashUriType} (member : type ∈ digitLinkTypes) :
      ∃ out, hashUriVariant stack ⟨.linkHashUri, some .sha256, exampleDigest⟩ type uriMax = .ok out :=
    ⟨_, hashUriVariant_eq stack rfl member⟩
  obtain ⟨namedInfo, isNamedInfo⟩ := variant (show .linkNamedInfo ∈ digitLinkTypes by decide)
  obtain ⟨ofPrefix, isPrefix⟩ := variant (show .linkPrefix ∈ digitLinkTypes by decide)
  obtain ⟨ssb, isSsb⟩ := variant (show .linkSsb ∈ digitLinkTypes by decide)
  obtain ⟨magnet, isMagnet⟩ := variant (show .linkMagnet ∈ digitLinkTypes by decide)
  obtain ⟨⟨multihash, length⟩, formatted⟩ := exists_hashUriFormat_multihash stack
    (show multihashAlgoEncode .sha256 ≠ 0 by decide) uriMax_pos
    (show exampleDigest.length ≤ hashDigestMax by decide)
  have isMultihash : hashUriVariant stack ⟨.linkHashUri, some .sha256, exampleDigest⟩ .linkMultihash
      uriMax = .ok multihash := by
    rw [hashUriVariant, formatted]
    rfl
  refine ⟨⟨namedInfo, ofPrefix, multihash, ssb, magnet⟩, ?_⟩
  rw [examplesOf, parsed, assertRc_ok, Result.ok_bind, isNamedInfo, assertRc_ok, Result.ok_bind,
    isPrefix, assertRc_ok, Result.ok_bind, isMultihash, assertRc_ok, Result.ok_bind, isSsb,
    assertRc_ok, Result.ok_bind, isMagnet, assertRc_ok, Result.ok_bind]

/-! ## Values -/

section Values

variable {wr : TemplateWriteFn Page} (appends : Appends wr) (stack : Stack)

include appends in
/-- What `write_link` writes is a link. -/
theorem exists_writeLink (type : HashUriType) (uriUnsafe : Str) :
    ∃ link, SameBlock link (blankLink type) ∧ ∀ output fault, ∃ rc, 0 ≤ rc ∧
      writeLink stack wr type uriUnsafe (output, fault) = (rc, output ++ link, fault) := by
  obtain ⟨link, linked, same⟩ := exists_linkHtml stack type uriUnsafe
  refine ⟨link, same, fun output fault => ?_⟩
  rw [writeLink, linked]
  exact appends link output fault

/-- The items of a list, each with the link to its URL. -/
def ListsUrls (items urls : List Str) : Prop :=
  List.Forall₂ (fun item url => itemHtml stack .linkWebUrl [] (some url) false = .ok (some item) ∧
    SameBlock item (blankItem .linkWebUrl)) items urls

include appends in
/-- **A loop over URLs** writes one item for each. -/
theorem exists_writeItems (urls : List Str) :
    ∃ items, ListsUrls stack items urls ∧ ∀ output fault,
      writeItems stack wr urls (output, fault) = (0, output ++ items.flatten, fault) := by
  induction urls with
  | nil => exact ⟨[], .nil, fun output fault => by rw [writeItems, List.flatten_nil, List.append_nil]⟩
  | cons url urls ih =>
      obtain ⟨items, lists, wrote⟩ := ih
      obtain ⟨item, written, same⟩ := exists_itemHtml stack .linkWebUrl url false
      refine ⟨item :: items, .cons ⟨written, same⟩ lists, fun output fault => ?_⟩
      obtain ⟨rc, succeeded, wroteItem⟩ := appends item output fault
      rw [List.flatten_cons, ← List.append_assoc, ← wrote]
      simp only [writeItems, written, wroteItem, if_neg (not_lt.mpr succeeded)]

end Values

/-- The names of `exampleLinks`. -/
def exampleNames : List Str :=
  ["web-url-example".toList, "hash-uri-example".toList, "named-info-example".toList,
    "multihash-example".toList, "prefix-example".toList, "ssb-example".toList,
    "magnet-example".toList]

theorem exists_lookup (examples : Examples) {name : Str} (member : name ∈ exampleNames) :
    ∃ link, (exampleLinks examples).lookup name = some link := by
  cases held : (exampleLinks examples).lookup name with
  | some link => exact ⟨link, rfl⟩
  | none =>
      have names : (exampleLinks examples).map Prod.fst = exampleNames := rfl
      rw [← names] at member
      obtain ⟨link, inLinks, rfl⟩ := List.mem_map.mp member
      exact absurd (List.lookup_eq_none_iff.mp held link inLinks) (by simp)

theorem of_mem_exampleHoles : ∀ hole ∈ exampleHoles, hole.1 = .text ∧ hole.2 ∈ exampleNames := by
  simp only [exampleHoles, List.forall_mem_cons]
  simp [exampleNames]

theorem known_of_mem_indexHoles : ∀ name ∈ (exampleHoles ++ (Position.text, "recent-list".toList) ::
    [(Position.text, "critical-list".toList), (Position.doubleQuoted, "host".toList)]).map Prod.snd,
      name ∈ exampleNames ∨
        name ∈ ["recent-list".toList, "critical-list".toList, "host".toList] := by
  intro name member
  rw [List.map_append] at member
  rcases List.mem_append.mp member with inExamples | other
  · obtain ⟨hole, inHoles, rfl⟩ := List.mem_map.mp inExamples
    exact .inl (of_mem_exampleHoles hole inHoles).2
  · exact .inr other

/-! ## The text of the page -/

section Text

variable {stack : Stack} {linkOf : HashUriType → Str → Str}

/-- The variables of the front page, from the texts of links and of the two lists. -/
def indexText (linkOf : HashUriType → Str → Str) (examples : Examples) (urgent recent name : Str) :
    Str :=
  match (exampleLinks examples).lookup name with
  | some (type, uriUnsafe) => linkOf type uriUnsafe
  | none =>
    if name = "recent-list".toList then recent
    else if name = "critical-list".toList then urgent
    else configHostnamePublic

theorem succeeds_templateVar {wr : TemplateWriteFn Page} (appends : Appends wr) {examples : Examples}
    {recent : List Response} {urgent listed : List Str}
    (links : ∀ type uriUnsafe output fault, ∃ rc, 0 ≤ rc ∧
      writeLink stack wr type uriUnsafe (output, fault) =
        (rc, output ++ linkOf type uriUnsafe, fault))
    (writtenUrgent : ∀ output fault,
      writeItems stack wr critical (output, fault) = (0, output ++ urgent.flatten, fault))
    (writtenListed : ∀ output fault, writeItems stack wr (recent.map Response.url)
      (output, fault) = (0, output ++ listed.flatten, fault)) {names : List Str}
    (known : ∀ name ∈ names, name ∈ exampleNames ∨ name ∈
      ["recent-list".toList, "critical-list".toList, "host".toList]) :
    Succeeds (templateVar stack examples (.ok recent)) wr
      (faulty fun name => (indexText linkOf examples urgent.flatten listed.flatten name, none))
      names := by
  intro name member output fault
  show ∃ rc, 0 ≤ rc ∧ templateVar stack examples (.ok recent) name wr (output, fault) =
    (rc, output ++ indexText linkOf examples urgent.flatten listed.flatten name, fault.or none)
  rw [Option.or_none]
  cases held : (exampleLinks examples).lookup name with
  | some link =>
      simp only [templateVar, indexText, held]
      exact links link.1 link.2 output fault
  | none =>
      have others := (known name member).resolve_left fun isExample => by
        obtain ⟨link, isLink⟩ := exists_lookup examples isExample
        rw [held] at isLink
        cases isLink
      simp only [templateVar, indexText, held]
      by_cases isRecent : name = "recent-list".toList
      · rw [if_pos isRecent, if_pos isRecent]
        exact ⟨0, Int.le_refl 0, writtenListed output fault⟩
      by_cases isCritical : name = "critical-list".toList
      · rw [if_neg isRecent, if_neg isRecent, if_pos isCritical, if_pos isCritical]
        exact ⟨0, Int.le_refl 0, writtenUrgent output fault⟩
      have isHost : name = "host".toList := by
        rcases List.mem_cons.mp others with same | others
        · exact absurd same isRecent
        · rcases List.mem_pair.mp others with same | same
          · exact absurd same isCritical
          · exact same
      rw [if_neg isRecent, if_neg isRecent, if_neg isCritical, if_neg isCritical, if_pos isHost]
      exact appends _ _ _

/-- **The page but for the recent URLs** does not depend on them, and they stand in text. -/
theorem exists_indexFrame {examples : Examples} {urgent : Str}
    (closed : ∀ type uriUnsafe, Position.text.after (linkOf type uriUnsafe) = .text) :
    ∃ before after, Position.text.after before = .text ∧ ∀ recent,
      fillVars (indexText linkOf examples urgent recent) indexHtml = before ++ (recent ++ after) := by
  obtain ⟨first, rest, inFirst, inRest, -, filled⟩ := holes_indexHtml.split
  have isExample (recent : Str) : ∀ hole ∈ exampleHoles, hole.1 = .text ∧ ∃ type uriUnsafe,
      indexText linkOf examples urgent recent hole.2 = linkOf type uriUnsafe := by
    intro hole member
    obtain ⟨text, known⟩ := of_mem_exampleHoles hole member
    obtain ⟨link, held⟩ := exists_lookup examples known
    exact ⟨text, link.1, link.2, by rw [indexText, held]⟩
  refine ⟨fillVars (indexText linkOf examples urgent []) first,
    fillVars (indexText linkOf examples urgent []) rest, ?_, fun recent => ?_⟩
  · refine after_fillVars inFirst fun hole member => ?_
    obtain ⟨text, type, uriUnsafe, same⟩ := isExample [] hole member
    rw [text, same]
    exact closed type uriUnsafe
  · have sameFirst : fillVars (indexText linkOf examples urgent recent) first =
        fillVars (indexText linkOf examples urgent []) first := by
      refine fillVars_congr inFirst fun hole member => ?_
      obtain ⟨link, held⟩ := exists_lookup examples (of_mem_exampleHoles hole member).2
      rw [indexText, indexText, held]
    have sameRest : fillVars (indexText linkOf examples urgent recent) rest =
        fillVars (indexText linkOf examples urgent []) rest := by
      refine fillVars_congr inRest fun hole member => ?_
      rcases List.mem_pair.mp member with rfl | rfl <;> rfl
    rw [filled, sameFirst, sameRest]
    rfl

end Text

/-- **What the front page lists.** In every reachable state the page is written, as long as chunks
are, and it is a fixed text with the links to the latest ten URLs that were fetched in it, latest
first, each with its URL encoded: before the list a reader is in text, and each item closes its
tags. -/
theorem pageIndex_lists {wr : TemplateWriteFn Page} (appends : Appends wr) {memory : ℕ → Bool}
    (enough : ∀ size, memory size = true) (stack : Stack) :
    ∃ before after, Position.text.after before = .text ∧
      ∀ {state : Recording}, recording.Reaches Machine.anyStep state →
        ∀ recent : List Response, recent.length = 10 → ∃ all items,
          ((∀ stored, stored ∈ all ↔ stored ∈ state.log) ∧ all.Pairwise Stored.Later) ∧
          pageIndexBody wr memory stack recent state.db = .ok (before ++ (items.flatten ++ after)) ∧
          ListsUrls stack items (((firstOfUrls all).take 10).map fun stored => stored.1.url) := by
  obtain ⟨examples, isExamples⟩ := exists_examplesOf stack
  obtain ⟨index, loaded⟩ := exists_templateLoad enough indexHtml
  obtain ⟨urgent, -, writtenUrgent⟩ := exists_writeItems appends stack critical
  choose linkOf same links using exists_writeLink appends stack
  obtain ⟨before, after, inText, framed⟩ := @exists_indexFrame linkOf examples urgent.flatten
    fun type uriUnsafe => (same type uriUnsafe).closed
  refine ⟨before, after, inText, ?_⟩
  intro state reached recent ten
  have recorded := recorded_of_reaches reached
  obtain ⟨all, keys, members, sorted⟩ := exists_response_listing recorded
  obtain ⟨filled, done, holds⟩ := recentLoop_of_recorded recorded
    (fun stored inAll => (members stored).mp inAll) .nil recent
  rw [List.nil_append, candidates_nil, ten] at holds
  have read : (hxGetRecent recent state.db).1 = .ok filled := by
    rw [hxGetRecent, Txn.assert_bind (by omega), Txn.keysr_bind, ← keys, done]
  obtain ⟨items, lists, writtenListed⟩ := exists_writeItems appends stack (filled.map Response.url)
  have urls : filled.map Response.url =
      ((firstOfUrls all).take 10).map fun stored => stored.1.url := by
    have each := List.forall₂_map_left_iff.mpr
      (List.forall₂_map_right_iff.mpr (holds.imp fun _ _ held => held.url))
    rwa [List.forall₂_eq_eq_eq] at each
  refine ⟨all, items, ⟨members, sorted⟩, ?_, urls ▸ lists⟩
  obtain ⟨fault, written, noFault⟩ := write_template appends (created_of_loaded loaded) holes_indexHtml
    (@succeeds_templateVar stack linkOf _ appends examples filled urgent items links writtenUrgent
      writtenListed _ known_of_mem_indexHoles) ([], none)
  rw [noFault.mpr ⟨rfl, fun _ _ => rfl⟩, List.nil_append] at written
  rw [pageIndexBody, loaded, Result.ok_bind, isExamples, Result.ok_bind, read,
    templateWriteHTTPChunk, written, ← framed]
  rfl

/-- The sample is listed on the front page. -/
theorem pageIndex_lists_sample : ∃ (state : Recording) (before after : Str) (all : List Stored)
    (items : List Str), state.log = [(.sample, 3)] ∧
    pageIndexBody writePlain (fun _ => true) (fun _ => 0) (List.replicate 10 .blank) state.db =
      .ok (before ++ (items.flatten ++ after)) ∧
    ListsUrls (fun _ => 0) items (((firstOfUrls all).take 10).map fun stored => stored.1.url) := by
  obtain ⟨state, reached, logged⟩ := exists_recording_sample
  obtain ⟨before, after, -, lists⟩ :=
    @pageIndex_lists _ appends_writePlain (fun _ => true) (fun _ => rfl) (fun _ => 0)
  obtain ⟨all, items, -, written, listed⟩ := lists reached (List.replicate 10 .blank) (by simp)
  exact ⟨state, before, after, all, items, logged, written, listed⟩

/-! ## The page of an error -/

/-- `parse_error`, with the body it writes unless it returns `UV_ENOMEM`. -/
def parseErrorBody (wr : TemplateWriteFn Page) (memory : ℕ → Bool) (stack : Stack) (query : Str) :
    Result (Option Str) := do
  let error ← templateLoad memory errorHtml
  match ← htmlEncode stack (some query) with
  | none => .ok none
  | some escaped =>
    let conn ← templateWriteHTTPChunk wr error
      (templateStaticVar [("query".toList, some escaped)]) ([], none)
    let body ← endPage conn
    .ok (some body)

/-- **The page of an error** has the same tags whatever was asked for. -/
theorem parseError_tags {wr : TemplateWriteFn Page} (appends : Appends wr) {memory : ℕ → Bool}
    (enough : ∀ size, memory size = true) :
    ∃ shape, ∀ stack query, ∃ body, parseErrorBody wr memory stack query = .ok (some body) ∧
      tags .text body = shape ∧ Position.text.after body = .text := by
  obtain ⟨error, loaded⟩ := exists_templateLoad enough errorHtml
  refine ⟨tags .text (fillVars (fun _ => []) errorHtml), fun stack query => ?_⟩
  obtain ⟨escaped, encodes, quiet⟩ := htmlEncode_quiet stack query
  have written := @writes_args _ appends memory errorHtml _ error [("query".toList, some escaped)]
    (fun _ => []) sourcesHoles.error loaded fun hole member => by
      rw [List.mem_singleton.mp member]
      exact ⟨escaped, rfl, fitsAt_quoted quiet⟩
  obtain ⟨body, done, same⟩ := written.endPage.1 trivial
  refine ⟨body, ?_, same.tags, same.closed⟩
  obtain ⟨conn, filled, ended⟩ := Result.bind_eq_ok.mp done
  simp only [parseErrorBody, loaded, Result.ok_bind, encodes, filled, ended]

end HashArchive.Pages
