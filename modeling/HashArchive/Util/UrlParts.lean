import HashArchive.Util.Surt

/-!
# Where a URL is split

`url_parse` takes the host of an absolute URL up to the first slash. By RFC 3986 a host
ends at a question mark and at a number sign as well. The two agree when neither comes
before the first slash (`urlParse_splits_iff`); when one does, the query and the fragment
become part of the host, and are put in lower case with it.

`url_normalize` writes the parts of a URL after a scheme and a colon, whatever the form of
the URL was. The parts of an absolute URL are read back (`urlParse_text`). Those of a
relative one are not, because its scheme is empty (`urlNormalize_idempotent_iff`).
-/

set_option autoImplicit false

namespace HashArchive.Url

/-! ## The parts by RFC 3986 -/

/-- An absolute URL. -/
def absolute (scheme rest : Str) : Str := scheme ++ (':' :: '/' :: '/' :: rest)

/-- A character of an authority. -/
def isAuthorityChar (c : Char) : Bool := c != '/' && c != '?' && c != '#'

/-- A character of a path. -/
def isPathChar (c : Char) : Bool := c != '?' && c != '#'

/-- The authority: what is before the first slash, question mark or number sign. -/
def authority (rest : Str) : Str := rest.takeWhile isAuthorityChar

/-- What follows the authority. -/
def afterAuthority (rest : Str) : Str := rest.dropWhile isAuthorityChar

/-- The path: what follows the authority up to a question mark or number sign. -/
def pathOf (rest : Str) : Str := (afterAuthority rest).takeWhile isPathChar

/-- The query, with its question mark: what follows the path up to a number sign. -/
def queryOf (rest : Str) : Str := ((afterAuthority rest).dropWhile isPathChar).takeWhile (· != '#')

/-- The parts are those of RFC 3986, the host in lower case. -/
def SplitsRight (parsed : UrlT) (rest : Str) : Prop :=
  parsed.host = strlower (authority rest) ∧ parsed.path = pathOf rest ∧
    parsed.query = queryOf rest

instance (parsed : UrlT) (rest : Str) : Decidable (SplitsRight parsed rest) :=
  inferInstanceAs (Decidable (_ ∧ _ ∧ _))

/-- The authority ends with the text or at a slash, or it is of 255 characters and ends at
a number sign. -/
def WellDelimited (rest : Str) : Prop :=
  (∀ c ∈ (afterAuthority rest).head?, c = '/') ∨
    (authority rest).length = 255 ∧ (afterAuthority rest).head? = some '#'

theorem authority_append (rest : Str) : authority rest ++ afterAuthority rest = rest :=
  List.takeWhile_append_dropWhile

theorem isAuthorityChar_iff {c : Char} : isAuthorityChar c = true ↔ c ≠ '/' ∧ c ≠ '?' ∧ c ≠ '#' := by
  simp [isAuthorityChar, and_assoc]

theorem mem_authority {rest : Str} {c : Char} (member : c ∈ authority rest) :
    (c != '/') = true ∧ isPathChar c = true := by
  obtain ⟨slash, mark, sign⟩ := isAuthorityChar_iff.mp (List.mem_takeWhile_imp member)
  exact ⟨bne_iff_ne.mpr slash, by simp [isPathChar, mark, sign]⟩

/-- What ends an authority. -/
theorem head?_afterAuthority {rest : Str} {c : Char} (first : c ∈ (afterAuthority rest).head?) :
    c = '/' ∨ c = '?' ∨ c = '#' := by
  have stops : isAuthorityChar c = false := outside_of_head?_dropWhile first
  by_contra other
  push Not at other
  rw [isAuthorityChar_iff.mpr other] at stops
  cases stops

/-! ## What is scanned -/

/-- What is scanned of an absolute URL after its scheme. -/
def restFields (rest : Str) : List Str := sscanf [urlHostFmt, urlPathFmt, urlQueryFmt] rest

/-- The parts of an absolute URL with a scheme that fits. -/
def restParts (scheme rest : Str) : UrlT :=
  ⟨scheme, (restFields rest).getD 0 [], (restFields rest).getD 1 [], (restFields rest).getD 2 []⟩

section Scheme

variable {scheme rest : Str} (noColon : ':' ∉ scheme) (noSlash : scheme.head? ≠ some '/')
include noColon noSlash

/-- A scheme is accepted when it is not empty and fits. -/
theorem urlParse_eq_ok_iff {parsed : UrlT} : urlParse (absolute scheme rest) = .ok parsed ↔
    (scheme ≠ [] ∧ scheme.length ≤ 31) ∧ (restParts scheme rest).host ≠ [] ∧
      urlCheck (restParts scheme rest) = .ok parsed := by
  have inside : ∀ c ∈ scheme, (c != ':') = true := by
    intro c member
    simpa using fun same : c = ':' => noColon (same ▸ member)
  have nonempty : absolute scheme rest ≠ [] :=
    List.append_ne_nil_of_right_ne_nil _ (List.cons_ne_nil _ _)
  have start : (absolute scheme rest).head? ≠ some '/' := by
    cases scheme with
    | nil => simp [absolute]
    | cons first scheme => exact noSlash
  rw [urlParse_absolute nonempty start]
  by_cases empty : scheme = []
  · subst empty
    simp [absolute, sscanf, scansetMatch, urlSchemeFmt]
  rcases Nat.lt_or_ge 31 scheme.length with long | short
  · rw [absolute, AbsoluteUrl.sscanf_scheme_of_long inside long]
    simp [Nat.not_le.mpr long]
  · have scanned : sscanf AbsoluteUrl.absoluteFmt (absolute scheme rest) =
        scheme :: restFields rest := AbsoluteUrl.sscanf_scheme inside empty short
    rw [scanned]
    simp only [List.getD_cons_zero, List.getD_cons_succ]
    rw [if_neg empty]
    by_cases host : (restFields rest).getD 0 [] = []
    · rw [if_pos host]
      exact ⟨fun failed => absurd failed (by simp), fun whole => absurd host whole.2.1⟩
    · rw [if_neg host]
      exact ⟨fun checked => ⟨⟨empty, short⟩, host, checked⟩, fun whole => whole.2.2⟩

end Scheme

theorem restFields_append {host tail : Str} (inside : ∀ c ∈ host, (c != '/') = true)
    (nonempty : host ≠ []) (short : host.length ≤ 255)
    (stops : (∀ c ∈ tail.head?, c = '/') ∨ host.length = 255) :
    restFields (host ++ tail) = host :: sscanf [urlPathFmt, urlQueryFmt] tail :=
  AbsoluteUrl.sscanf_host inside nonempty short stops

/-- A path does not begin with a question mark or a number sign. -/
theorem sscanf_path_of_mark {c : Char} {tail : Str} (mark : isPathChar c = false) :
    sscanf [urlPathFmt, urlQueryFmt] (c :: tail) = [] := by
  have outside : (c != '?' && c != '#') = false := mark
  simp [sscanf, urlPathFmt, scansetMatch, outside]

/-- The path and the query of a text that begins with a path, or is empty. -/
theorem sscanf_resource_parts {tail : Str} (slash : ∀ c ∈ tail.head?, c = '/')
    (fits : tail.length ≤ 1023) :
    (sscanf [urlPathFmt, urlQueryFmt] tail).getD 0 [] = tail.takeWhile isPathChar ∧
      (sscanf [urlPathFmt, urlQueryFmt] tail).getD 1 [] =
        (tail.dropWhile isPathChar).takeWhile (· != '#') := by
  have path : (sscanf [urlPathFmt, urlQueryFmt] tail).getD 0 [] = tail.takeWhile isPathChar := by
    rw [urlPathFmt, getD_sscanf_scanset]
    exact scansetMatch_of_fits fits
  refine ⟨path, ?_⟩
  have both := sscanf_resource slash fits
  rw [path, ← @takeWhile_append_takeWhile isPathChar (· != '#')
    (fun c inside => (Bool.and_eq_true_iff.mp inside).2) tail] at both
  exact List.append_cancel_left both

/-- An accepted path begins with a slash. -/
theorem head?_of_urlCheck {out parsed : UrlT} (checked : urlCheck out = .ok parsed) {c : Char}
    (first : out.path.head? = some c) : c = '/' := by
  have nonempty : out.path ≠ [] := by
    intro empty
    rw [empty] at first
    cases first
  exact Option.some.inj (first.symm.trans ((urlCheck_eq_ok checked).2 nonempty))

/-- A host goes on after a question mark or a number sign. -/
theorem length_host_of_mark {host tail : Str} {c : Char} (inside : ∀ c ∈ host, (c != '/') = true)
    (mark : (c != '/') = true) (short : host.length < 255) :
    host.length < ((restFields (host ++ c :: tail)).getD 0 []).length := by
  obtain ⟨room, limit⟩ : ∃ room, 255 - host.length = room + 1 := ⟨254 - host.length, by omega⟩
  rw [restFields, urlHostFmt, getD_sscanf_scanset, scansetMatch, List.take_append, limit,
    List.take_of_length_le (by omega), List.take_succ_cons, List.takeWhile_append_of_pos inside,
    List.takeWhile_cons_of_pos (p := (· != '/')) mark, List.length_append, List.length_cons]
  omega

/-! ## Accepted URLs -/

section Accepted

variable {scheme rest : Str} {parsed : UrlT} (host : (restParts scheme rest).host ≠ [])
  (checked : urlCheck (restParts scheme rest) = .ok parsed)
include checked

/-- Nothing of an authority is cut off. -/
theorem length_authority_le : (authority rest).length ≤ 255 := by
  by_contra long
  obtain ⟨next, other, path⟩ := @AbsoluteUrl.sscanf_host_of_long _ (afterAuthority rest)
    (fun _ => mem_authority) (not_le.mp long)
  rw [authority_append] at path
  exact other (head?_of_urlCheck checked path)

/-- A question mark or a number sign that ends a host in time is missed. -/
theorem not_splitsRight_of_mark {mark : Char} {tail : Str}
    (after : afterAuthority rest = mark :: tail) (other : (mark != '/') = true)
    (short : (authority rest).length < 255) : ¬ SplitsRight parsed rest := by
  rintro ⟨sameHost, -, -⟩
  obtain ⟨rfl, -⟩ := urlCheck_eq_ok checked
  have longer := @length_host_of_mark (authority rest) tail _
    (fun c member => (mem_authority member).1) other short
  rw [← after, authority_append] at longer
  have length : ((restFields rest).getD 0 []).length = (authority rest).length :=
    (length_strlower _).symm.trans ((congrArg List.length sameHost).trans (length_strlower _))
  omega

include host

/-- A host that ends at a slash is followed by the path and the query. -/
theorem splitsRight_of_slash (fits : rest.length ≤ 1023)
    (slash : ∀ c ∈ (afterAuthority rest).head?, c = '/') : SplitsRight parsed rest := by
  have short := length_authority_le checked
  obtain ⟨rfl, -⟩ := urlCheck_eq_ok checked
  have nonempty : authority rest ≠ [] := by
    intro empty
    have whole := authority_append rest
    rw [empty, List.nil_append] at whole
    rw [whole] at slash
    apply host
    show (restFields rest).getD 0 [] = []
    rw [restFields, urlHostFmt, getD_sscanf_scanset, scansetMatch]
    cases rest with
    | nil => rfl
    | cons first rest =>
        rw [slash first rfl, List.take_succ_cons]
        exact List.takeWhile_cons_of_neg (by simp)
  have tailFits : (afterAuthority rest).length ≤ 1023 :=
    (List.dropWhile_sublist _).length_le.trans fits
  have fields := @restFields_append (authority rest) _ (fun c member => (mem_authority member).1)
    nonempty short (.inl slash)
  rw [authority_append] at fields
  obtain ⟨path, query⟩ := sscanf_resource_parts slash tailFits
  rw [SplitsRight, restParts, fields]
  exact ⟨rfl, path, query⟩

/-- **Where the parts of an accepted URL are right.** -/
theorem splitsRight_iff (fits : rest.length ≤ 1023) :
    SplitsRight parsed rest ↔ WellDelimited rest := by
  have short := length_authority_le checked
  unfold WellDelimited
  by_cases slash : ∀ c ∈ (afterAuthority rest).head?, c = '/'
  · exact iff_of_true (splitsRight_of_slash host checked fits slash) (.inl slash)
  rw [or_iff_right slash]
  push Not at slash
  obtain ⟨mark, first, other⟩ := slash
  have isMark := (head?_afterAuthority first).resolve_left other
  obtain ⟨tail, after⟩ := List.head?_eq_some_iff.mp first
  rcases Nat.lt_or_eq_of_le short with less | limit
  · refine iff_of_false ?_ (fun ⟨limit, _⟩ => absurd limit less.ne)
    exact not_splitsRight_of_mark checked after (bne_iff_ne.mpr other) less
  · obtain ⟨rfl, -⟩ := urlCheck_eq_ok checked
    have noPath : isPathChar mark = false := by rcases isMark with rfl | rfl <;> rfl
    have fields := @restFields_append (authority rest) (afterAuthority rest)
      (fun c member => (mem_authority member).1) (List.ne_nil_of_length_pos (by omega)) short
      (.inr limit)
    rw [authority_append, after, sscanf_path_of_mark noPath] at fields
    rw [SplitsRight, restParts, fields, pathOf, queryOf, after,
      List.takeWhile_cons_of_neg (by rw [noPath]; decide),
      List.dropWhile_cons_of_neg (by rw [noPath]; decide)]
    -- Neither a path nor a query is scanned; there is a query unless the mark is a sign.
    rcases isMark with rfl | rfl
    · exact iff_of_false (by simp) (by simp)
    · exact iff_of_true (by simp) (by simp [limit])

end Accepted

/-! ## Fragments -/

/-- Conversions that stop at a number sign take the same from a text with a fragment. -/
theorem sscanf_fragment {format : List Directive} {text : Str} (fragment : Str)
    (stop : ∀ directive ∈ format, ∃ bound set, directive = .scanset (some bound) set ∧
      set '#' = false ∧ text.length ≤ bound) :
    sscanf format (text ++ '#' :: fragment) = sscanf format text := by
  induction format generalizing text with
  | nil => rfl
  | cons directive format ih =>
      obtain ⟨⟨bound, set, rfl, sign, fits⟩, later⟩ := List.forall_mem_cons.mp stop
      obtain ⟨run, left, rfl, inside, outside⟩ := exists_run set text
      rw [List.length_append] at fits
      have outsideSign : ∀ c ∈ (left ++ '#' :: fragment).head?, set c = false := by
        intro c first
        cases left with
        | nil => exact Option.some.inj first ▸ sign
        | cons next left => exact outside c first
      have short : ∀ limit ∈ some bound, run.length ≤ limit := by
        rintro limit ⟨⟩
        omega
      rw [List.append_assoc]
      by_cases empty : run = []
      · subst empty
        rw [sscanf, sscanf, scansetMatch_of_stop inside outside short,
          scansetMatch_of_stop inside outsideSign short]
      · rw [sscanf_of_stop inside empty outside short,
          sscanf_of_stop inside empty outsideSign short]
        refine congrArg (run :: ·) (ih fun directive member => ?_)
        obtain ⟨bound, set, same, sign, fits⟩ := later directive member
        rw [List.length_append] at fits
        exact ⟨bound, set, same, sign, by omega⟩

theorem sscanf_resource_fragment {tail : Str} (fragment : Str) (fits : tail.length ≤ 1023) :
    sscanf [urlPathFmt, urlQueryFmt] (tail ++ '#' :: fragment) =
      sscanf [urlPathFmt, urlQueryFmt] tail := by
  apply sscanf_fragment fragment
  intro directive member
  rcases List.mem_pair.mp member with rfl | rfl
  · exact ⟨1023, _, rfl, by decide, fits⟩
  · exact ⟨1023, _, rfl, by decide, fits⟩

/-- A fragment makes no difference when a slash or the limit ends the host. -/
theorem restFields_fragment {rest : Str} (fragment : Str) (fits : rest.length ≤ 1023)
    (host : (restFields rest).getD 0 [] ≠ []) (ends : '/' ∈ rest ∨ 255 ≤ rest.length) :
    restFields (rest ++ '#' :: fragment) = restFields rest := by
  obtain ⟨run, tail, rfl, inside, outside⟩ := exists_run (· != '/') rest
  have slash : ∀ c ∈ tail.head?, c = '/' := by
    intro c first
    simpa using outside c first
  rw [List.length_append] at fits ends
  rcases Nat.lt_or_ge run.length 255 with short | long
  · have nonempty : run ≠ [] := by
      rintro rfl
      apply host
      rw [restFields, urlHostFmt, getD_sscanf_scanset,
        scansetMatch_of_stop inside (fun c first => by simp [slash c first]) (by simp)]
    have slashed : tail ≠ [] := by
      rintro rfl
      rcases ends with member | long
      · rw [List.append_nil] at member
        exact absurd (inside _ member) (by decide)
      · rw [List.length_nil] at long
        omega
    have slashAfter : ∀ c ∈ (tail ++ '#' :: fragment).head?, c = '/' := by
      rwa [List.head?_append_of_ne_nil _ slashed]
    rw [List.append_assoc, restFields_append inside nonempty short.le (.inl slash),
      restFields_append inside nonempty short.le (.inl slashAfter),
      sscanf_resource_fragment fragment (by omega)]
  · have length : (run.take 255).length = 255 := List.length_take_of_le long
    have insideTake : ∀ c ∈ run.take 255, (c != '/') = true :=
      fun c member => inside c (List.mem_of_mem_take member)
    have nonempty : run.take 255 ≠ [] := List.ne_nil_of_length_pos (by omega)
    have left : (run.drop 255 ++ tail).length ≤ 1023 := by
      rw [List.length_append, List.length_drop]
      omega
    have taken := fun left => @restFields_append _ left insideTake nonempty length.le (.inr length)
    rw [← List.take_append_drop 255 run]
    simp only [List.append_assoc, taken]
    rw [← List.append_assoc, sscanf_resource_fragment fragment left]

section Accepted

variable {scheme rest : Str} {parsed : UrlT} (host : (restParts scheme rest).host ≠ [])
  (checked : urlCheck (restParts scheme rest) = .ok parsed)
include host checked

/-- When neither ends it, the fragment goes into the host. -/
theorem urlCheck_fragment_iff (fragment : Str) (fits : rest.length ≤ 1023) :
    ((restParts scheme (rest ++ '#' :: fragment)).host ≠ [] ∧
      urlCheck (restParts scheme (rest ++ '#' :: fragment)) = .ok parsed) ↔
        '/' ∈ rest ∨ 255 ≤ rest.length := by
  refine ⟨fun ⟨_, same⟩ => by_contra fun neither => ?_, fun ends => ?_⟩
  · rw [not_or, not_le] at neither
    obtain ⟨noSlash, short⟩ := neither
    have inside : ∀ c ∈ rest, (c != '/') = true := by
      intro c member
      simpa using fun same : c = '/' => noSlash (same ▸ member)
    have nonempty : rest ≠ [] := by
      rintro rfl
      exact host rfl
    have whole := @restFields_append rest [] inside nonempty short.le (.inl (by simp))
    rw [List.append_nil] at whole
    have longer := @length_host_of_mark rest fragment '#' inside (by decide) short
    have hosts : strlower ((restFields (rest ++ '#' :: fragment)).getD 0 []) =
        strlower ((restFields rest).getD 0 []) := by
      have first := (urlCheck_eq_ok same).1
      rw [(urlCheck_eq_ok checked).1] at first
      exact (congrArg UrlT.host first).symm
    have lengths := congrArg List.length hosts
    rw [length_strlower, length_strlower, whole, List.getD_cons_zero] at lengths
    omega
  · have fields := restFields_fragment fragment fits host ends
    have parts : restParts scheme (rest ++ '#' :: fragment) = restParts scheme rest := by
      rw [restParts, restParts, fields]
    rw [parts]
    exact ⟨host, checked⟩

end Accepted

/-- **Where `url_parse` splits as RFC 3986 does**, and where it drops a fragment. -/
theorem urlParse_splits_iff {scheme rest : Str} (noColon : ':' ∉ scheme)
    (noSlash : scheme.head? ≠ some '/') (fits : (absolute scheme rest).length ≤ 1023)
    {parsed : UrlT} (accepted : urlParse (absolute scheme rest) = .ok parsed) :
    (SplitsRight parsed rest ↔ WellDelimited rest) ∧
      ∀ fragment, '#' ∉ rest → (absolute scheme rest ++ '#' :: fragment).length ≤ 1023 →
        (urlParse (absolute scheme rest ++ '#' :: fragment) = urlParse (absolute scheme rest) ↔
          '/' ∈ rest ∨ 255 ≤ rest.length) := by
  have restFits : rest.length ≤ 1023 := by
    simp only [absolute, List.length_append, List.length_cons] at fits
    omega
  obtain ⟨schemeFits, host, checked⟩ := (urlParse_eq_ok_iff noColon noSlash).mp accepted
  refine ⟨splitsRight_iff host checked restFits, fun fragment _ _ => ?_⟩
  have append : absolute scheme rest ++ '#' :: fragment =
      absolute scheme (rest ++ '#' :: fragment) := by simp [absolute]
  rw [accepted, append, urlParse_eq_ok_iff noColon noSlash, and_iff_right schemeFits]
  exact urlCheck_fragment_iff host checked fragment restFits

theorem urlParse_splits_sample :
    (SplitsRight ⟨"http".toList, "a".toList, "/B".toList, "?C".toList⟩ "A/B?C".toList ↔
      WellDelimited "A/B?C".toList) ∧
    ∀ fragment, '#' ∉ "A/B?C".toList →
      (absolute "http".toList "A/B?C".toList ++ '#' :: fragment).length ≤ 1023 →
      (urlParse (absolute "http".toList "A/B?C".toList ++ '#' :: fragment) =
        urlParse (absolute "http".toList "A/B?C".toList) ↔
          '/' ∈ "A/B?C".toList ∨ 255 ≤ "A/B?C".toList.length) :=
  urlParse_splits_iff (by decide) (by decide) (by decide) (by decide +kernel)

/-- **A query without a path before it is part of the host**, and so is a fragment. -/
theorem query_in_host :
    ∃ parsed, urlParse (absolute "http".toList "example.com?Q=A".toList) = .ok parsed ∧
      parsed.host = "example.com?q=a".toList ∧ ¬ SplitsRight parsed "example.com?Q=A".toList ∧
      urlParse (absolute "http".toList "example.com#f".toList) ≠
        urlParse (absolute "http".toList "example.com".toList) :=
  ⟨⟨"http".toList, "example.com?q=a".toList, [], []⟩, by decide +kernel, rfl, by decide +kernel,
    by decide +kernel⟩

/-! ## Normal forms -/

/-- The parts of an absolute URL, as `url_parse` gives them. -/
structure UrlT.Normal (parts : UrlT) : Prop where
  scheme_ne : parts.scheme ≠ []
  scheme_colon : ':' ∉ parts.scheme
  scheme_slash : parts.scheme.head? ≠ some '/'
  scheme_short : parts.scheme.length ≤ 31
  scheme_lower : strlower parts.scheme = parts.scheme
  host_ne : parts.host ≠ []
  host_slash : ∀ c ∈ parts.host, (c != '/') = true
  host_short : parts.host.length ≤ 255
  host_lower : strlower parts.host = parts.host
  path_slash : ∀ c ∈ parts.path.head?, c = '/'
  path_chars : ∀ c ∈ parts.path, isPathChar c = true
  query_mark : ∀ c ∈ parts.query.head?, c = '?'
  query_sign : ∀ c ∈ parts.query, (c != '#') = true
  query_path : parts.path = [] → parts.query = []

/-- What `url_format` writes. -/
def UrlT.text (parts : UrlT) : Str :=
  absolute parts.scheme (parts.host ++ (parts.path ++ parts.query))

theorem urlFormat_eq_ok {parts : UrlT} {max : ℕ} {out : Str} :
    urlFormat parts max = .ok out ↔ parts.text.length < max ∧ out = parts.text := by
  rw [urlFormat, snprintfOrTooLong_eq_ok]
  simp [UrlT.text, absolute]

/-- **The parts of an absolute URL are read back.** -/
theorem urlParse_text {parts : UrlT} (normal : parts.Normal) (fits : parts.text.length ≤ 1023) :
    urlParse parts.text = .ok parts := by
  have stops : ∀ c ∈ (parts.path ++ parts.query).head?, c = '/' := by
    intro c first
    by_cases empty : parts.path = []
    · rw [empty, normal.query_path empty] at first
      cases first
    · rw [List.head?_append_of_ne_nil _ empty] at first
      exact normal.path_slash c first
  have short : (parts.path ++ parts.query).length ≤ 1023 := by
    simp only [UrlT.text, absolute, List.length_append, List.length_cons] at fits ⊢
    omega
  have endsPath : ∀ c ∈ parts.query.head?, isPathChar c = false := by
    intro c first
    rw [normal.query_mark c first]
    decide
  have pathTaken := takeWhile_of_stop normal.path_chars endsPath
  have queryLeft := dropWhile_of_stop normal.path_chars endsPath
  obtain ⟨path, query⟩ := sscanf_resource_parts stops short
  rw [pathTaken] at path
  rw [queryLeft, List.takeWhile_eq_self_iff.mpr normal.query_sign] at query
  have scanned : restParts parts.scheme (parts.host ++ (parts.path ++ parts.query)) = parts := by
    rw [restParts, restFields_append normal.host_slash normal.host_ne normal.host_short (.inl stops)]
    simp only [List.getD_cons_zero, List.getD_cons_succ, path, query]
  rw [UrlT.text, urlParse_eq_ok_iff normal.scheme_colon normal.scheme_slash, scanned]
  refine ⟨⟨normal.scheme_ne, normal.scheme_short⟩, normal.host_ne, ?_⟩
  rw [urlCheck, if_neg, if_neg, normal.scheme_lower, normal.host_lower]
  · rintro ⟨nonempty, other⟩
    obtain ⟨first, rest, found⟩ := List.exists_cons_of_ne_nil nonempty
    rw [found] at other
    exact other (congrArg some (normal.query_mark first (by rw [found]; rfl)))
  · rintro ⟨nonempty, other⟩
    obtain ⟨first, rest, found⟩ := List.exists_cons_of_ne_nil nonempty
    rw [found] at other
    exact other (congrArg some (normal.path_slash first (by rw [found]; rfl)))

/-- The characters of the path and of the query, and that there is no query without a path. -/
theorem resource_fields (tail : Str) :
    (∀ c ∈ (sscanf [urlPathFmt, urlQueryFmt] tail).getD 0 [], isPathChar c = true) ∧
      (∀ c ∈ (sscanf [urlPathFmt, urlQueryFmt] tail).getD 1 [], (c != '#') = true) ∧
      ((sscanf [urlPathFmt, urlQueryFmt] tail).getD 0 [] = [] →
        (sscanf [urlPathFmt, urlQueryFmt] tail).getD 1 [] = []) := by
  rcases sscanf_scanset_cases (some 1023) isPathChar [urlQueryFmt] tail with
    none | ⟨nonempty, left, taken⟩
  · rw [show sscanf [urlPathFmt, urlQueryFmt] tail = [] from none]
    simp
  · rw [show sscanf [urlPathFmt, urlQueryFmt] tail = _ from taken]
    simp only [List.getD_cons_zero, List.getD_cons_succ]
    refine ⟨fun c member => of_mem_scansetMatch member, fun c member => ?_,
      fun empty => absurd empty nonempty⟩
    rw [urlQueryFmt, getD_sscanf_scanset] at member
    exact @of_mem_scansetMatch _ (· != '#') _ _ member

/-- A text that is accepted and does not begin with a slash is an absolute URL. -/
theorem absolute_of_accepted {url : Str} {parsed : UrlT} (accepted : urlParse url = .ok parsed)
    (noSlash : url.head? ≠ some '/') :
    ∃ scheme rest, url = absolute scheme rest ∧ ':' ∉ scheme ∧ scheme.head? ≠ some '/' := by
  have nonempty : url ≠ [] := by
    rintro rfl
    cases accepted
  rw [urlParse_absolute nonempty noSlash] at accepted
  dsimp only at accepted
  split_ifs at accepted with noScheme noHost
  obtain ⟨scheme, left, rfl, inside, outside⟩ := exists_run (· != ':') url
  have noColon : ':' ∉ scheme := fun member => absurd (inside _ member) (by decide)
  have some : scheme ≠ [] := by
    rintro rfl
    apply noScheme
    rw [urlSchemeFmt, getD_sscanf_scanset, scansetMatch_of_stop inside outside (by simp)]
  rcases Nat.lt_or_ge 31 scheme.length with long | short
  · obtain ⟨next, inScheme, more, scanned⟩ :=
      @sscanf_of_long _ _ left _ _ inside (by decide) long
    have other : next ≠ ':' := bne_iff_ne.mp (inside next inScheme)
    refine absurd ?_ noHost
    rw [urlSchemeFmt, scanned]
    simp [sscanf, other]
  · rw [urlSchemeFmt, sscanf_of_stop inside some outside (by simpa using short),
      List.getD_cons_succ] at noHost
    have goesOn : sscanf [.literal ':', .literal '/', .literal '/', urlHostFmt, urlPathFmt,
        urlQueryFmt] left ≠ [] := by
      intro ends
      rw [ends] at noHost
      exact noHost rfl
    obtain ⟨afterColon, rfl, colon⟩ := sscanf_literal goesOn
    obtain ⟨afterSlash, rfl, slash⟩ := sscanf_literal colon
    obtain ⟨rest, rfl, -⟩ := sscanf_literal slash
    refine ⟨scheme, rest, rfl, noColon, ?_⟩
    rwa [List.head?_append_of_ne_nil _ some] at noSlash

/-- An accepted query begins with a question mark. -/
theorem head?_query_of_urlCheck {out parsed : UrlT} (checked : urlCheck out = .ok parsed) {c : Char}
    (first : out.query.head? = some c) : c = '?' := by
  unfold urlCheck at checked
  split_ifs at checked with path query
  by_contra other
  refine query ⟨?_, fun mark => other (Option.some.inj (first.symm.trans mark))⟩
  intro empty
  rw [empty] at first
  cases first

theorem toLower_toLower (c : Char) : c.toLower.toLower = c.toLower := by
  by_cases upper : 65 ≤ c.val.toNat ∧ c.val.toNat ≤ 90
  · have lower := toNat_toLower upper
    exact toLower_of_not_upper (by omega)
  · rw [toLower_of_not_upper upper, toLower_of_not_upper upper]

theorem strlower_strlower (str : Str) : strlower (strlower str) = strlower str := by
  simp only [strlower, List.map_map]
  exact List.map_congr_left fun c _ => toLower_toLower c

theorem head?_strlower {str : Str} {symbol : Char} (noLetter : ¬ ('a' ≤ symbol ∧ symbol ≤ 'z'))
    (other : str.head? ≠ some symbol) : (strlower str).head? ≠ some symbol := by
  rw [strlower, List.head?_map]
  intro first
  obtain ⟨c, here, folded⟩ := Option.map_eq_some_iff.mp first
  exact other (eq_of_toLower_eq folded noLetter ▸ here)

/-- **The parts of an accepted absolute URL are normal.** -/
theorem normal_of_accepted {url : Str} {parsed : UrlT} (accepted : urlParse url = .ok parsed)
    (noSlash : url.head? ≠ some '/') : parsed.Normal := by
  obtain ⟨scheme, rest, rfl, noColon, schemeSlash⟩ := absolute_of_accepted accepted noSlash
  obtain ⟨⟨schemeNe, short⟩, host, checked⟩ := (urlParse_eq_ok_iff noColon schemeSlash).mp accepted
  have path := fun c => @head?_of_urlCheck _ _ checked c
  have query := fun c => @head?_query_of_urlCheck _ _ checked c
  obtain ⟨rfl, -⟩ := urlCheck_eq_ok checked
  obtain ⟨hostChars, left, fields⟩ := (sscanf_scanset_cases (some 255) (· != '/')
    [urlPathFmt, urlQueryFmt] rest).resolve_left fun none =>
      host (show (restFields rest).getD 0 [] = [] by rw [show restFields rest = [] from none]; rfl)
  have parts : restParts scheme rest = ⟨scheme, scansetMatch (some 255) (· != '/') rest,
      (sscanf [urlPathFmt, urlQueryFmt] left).getD 0 [],
      (sscanf [urlPathFmt, urlQueryFmt] left).getD 1 []⟩ := by
    rw [restParts, show restFields rest = _ from fields]
    rfl
  obtain ⟨pathChars, querySign, queryPath⟩ := resource_fields left
  rw [parts] at path query ⊢
  exact {
    scheme_ne := fun empty => schemeNe (List.map_eq_nil_iff.mp empty)
    scheme_colon := not_mem_strlower (by decide) noColon
    scheme_slash := head?_strlower (by decide) schemeSlash
    scheme_short := (length_strlower scheme).trans_le short
    scheme_lower := strlower_strlower scheme
    host_ne := fun empty => hostChars (List.map_eq_nil_iff.mp empty)
    host_slash := by
      intro c member
      obtain ⟨original, inHost, rfl⟩ := List.mem_map.mp member
      have plain := @of_mem_scansetMatch _ (· != '/') _ _ inHost
      exact bne_iff_ne.mpr fun slash =>
        bne_iff_ne.mp plain (eq_of_toLower_eq slash (by decide))
    host_short := (length_strlower _).trans_le (length_scansetMatch_le _ _ _)
    host_lower := strlower_strlower _
    path_slash := path
    path_chars := pathChars
    query_mark := query
    query_sign := querySign
    query_path := queryPath }

/-- A relative URL has no scheme. -/
theorem scheme_of_relative {url : Str} {parsed : UrlT} (accepted : urlParse url = .ok parsed)
    (slash : url.head? = some '/') : parsed.scheme = [] := by
  unfold urlParse at accepted
  dsimp only at accepted
  split at accepted
  · split_ifs at accepted
    exact congrArg UrlT.scheme (urlCheck_eq_ok accepted).1
  · split_ifs at accepted
    exact congrArg UrlT.scheme (urlCheck_eq_ok accepted).1
  · rename_i notRelative
    obtain ⟨rest, rfl⟩ := List.head?_eq_some_iff.mp slash
    exact absurd rfl (notRelative rest)

/-- **Where the normal form of a URL is its own normal form**, with the same parts. -/
theorem urlNormalize_idempotent_iff {url out : Str}
    (accepted : urlNormalize url uriMax = .ok out) :
    (urlNormalize out uriMax = .ok out ∧ urlParse out = urlParse url) ↔ url.head? ≠ some '/' := by
  obtain ⟨parsed, parse, format⟩ := Result.bind_eq_ok.mp accepted
  obtain ⟨fits, rfl⟩ := urlFormat_eq_ok.mp format
  constructor
  · rintro ⟨again, -⟩ slash
    obtain ⟨parsedAgain, parseAgain, -⟩ := Result.bind_eq_ok.mp again
    rw [UrlT.text, scheme_of_relative parse slash, urlParse_eq_ok_iff (by simp) (by simp)]
      at parseAgain
    exact parseAgain.1.1 rfl
  · intro noSlash
    have again := urlParse_text (normal_of_accepted parse noSlash) (Nat.lt_succ_iff.mp fits)
    exact ⟨Result.bind_eq_ok.mpr ⟨parsed, again, format⟩, again.trans parse.symm⟩

theorem urlNormalize_idempotent_sample :
    (urlNormalize "http://a/B".toList uriMax = .ok "http://a/B".toList ∧
      urlParse "http://a/B".toList = urlParse "HTTP://A/B#c".toList) ↔
        "HTTP://A/B#c".toList.head? ≠ some '/' :=
  urlNormalize_idempotent_iff (by decide +kernel)

/-- **The normal form of a relative URL is refused.** -/
theorem relative_not_idempotent :
    urlNormalize "//example.com/a".toList uriMax = .ok "://example.com/a".toList ∧
      urlNormalize "://example.com/a".toList uriMax = .error (.code .urlEparse) ∧
      urlNormalize "/a".toList uriMax = .ok ":///a".toList ∧
      urlNormalize ":///a".toList uriMax = .error (.code .urlEparse) :=
  ⟨by decide +kernel, by decide +kernel, by decide +kernel, by decide +kernel⟩

end HashArchive.Url
