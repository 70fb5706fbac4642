import HashArchive.Foundations.CProgram

/-!
# URLs and their SURT keys

`urlParse` splits a URL with bounded scansets, `urlFormat` joins it again, and
`urlNormalizeSurt` reverses the labels of the host in between: the result is the
key under which a URL is indexed and queued. The three are those of `util/url.c`;
each format string is written out as the list of its directives.
-/

set_option autoImplicit false

namespace HashArchive

/-- `URI_MAX`: the size of a buffer for a URL. -/
def uriMax : ℕ := 1023 + 1

/-- `TYPE_MAX`: the size of a buffer for a content type. -/
def typeMax : ℕ := 255 + 1

namespace Url

/-- `URL_HOST_MAX`. -/
def urlHostMax : ℕ := 255 + 1

/-- `URL_DOMAIN_MAX`. -/
def urlDomainMax : ℕ := 255 + 1

/-- `URL_SCHEME_FMT`. -/
def urlSchemeFmt : Directive := .scanset (some 31) (· != ':')

/-- `URL_HOST_FMT`. -/
def urlHostFmt : Directive := .scanset (some 255) (· != '/')

/-- `URL_DOMAIN_FMT`. -/
def urlDomainFmt : Directive := .scanset (some 255) fun c => c.isAlphanum || c == '.' || c == '-'

/-- `URL_PORT_FMT`. -/
def urlPortFmt : Directive := .scanset (some 15) Char.isDigit

/-- `URL_PATH_FMT`. -/
def urlPathFmt : Directive := .scanset (some 1023) fun c => c != '?' && c != '#'

/-- `URL_QUERY_FMT`. -/
def urlQueryFmt : Directive := .scanset (some 1023) (· != '#')

/-- `url_t`: the parts of a URL; the fragment is stripped. -/
structure UrlT where
  scheme : Str
  /-- Includes the port. -/
  host : Str
  path : Str
  query : Str
deriving DecidableEq, Repr

/-- `host_t`. -/
structure HostT where
  domain : Str
  port : Str
deriving DecidableEq, Repr

/-- `strlower`: ASCII upper case to lower case. -/
def strlower (str : Str) : Str := str.map Char.toLower

/-- The checks `url_parse` makes on every form, and the lower-casing. -/
def urlCheck (out : UrlT) : Result UrlT :=
  if out.path ≠ [] ∧ out.path.head? ≠ some '/' then .error (.code .urlEparse)
  else if out.query ≠ [] ∧ out.query.head? ≠ some '?' then .error (.code .urlEparse)
  else .ok { out with scheme := strlower out.scheme, host := strlower out.host }

/-- `url_parse`. A conversion that assigns nothing leaves its part empty. -/
def urlParse (url : Str) : Result UrlT :=
  match url with
  | '/' :: '/' :: _ =>
    -- Scheme-relative
    let fields := sscanf [.literal '/', .literal '/', urlHostFmt, urlPathFmt, urlQueryFmt] url
    let out : UrlT := ⟨[], fields.getD 0 [], fields.getD 1 [], fields.getD 2 []⟩
    if out.host = [] then .error (.code .urlEparse) else urlCheck out
  | '/' :: _ =>
    -- Host-relative
    let fields := sscanf [urlPathFmt, urlQueryFmt] url
    let out : UrlT := ⟨[], [], fields.getD 0 [], fields.getD 1 []⟩
    if out.path.head? ≠ some '/' then .error (.code .urlEparse) else urlCheck out
  | _ =>
    -- Absolute
    let fields := sscanf [urlSchemeFmt, .literal ':', .literal '/', .literal '/', urlHostFmt,
      urlPathFmt, urlQueryFmt] url
    let out : UrlT := ⟨fields.getD 0 [], fields.getD 1 [], fields.getD 2 [], fields.getD 3 []⟩
    if out.scheme = [] then .error (.code .urlEparse)
    else if out.host = [] then .error (.code .urlEparse)
    else urlCheck out

/-- A bounded `snprintf` whose caller rejects a truncated result. -/
def snprintfOrTooLong (text : Str) (max : ℕ) : Result Str :=
  if max ≤ (snprintf text max).2 then .error (.code .enametoolong)
  else .ok (snprintf text max).1

/-- `url_format`. -/
def urlFormat (url : UrlT) (max : ℕ) : Result Str :=
  snprintfOrTooLong (url.scheme ++ [':', '/', '/'] ++ url.host ++ url.path ++ url.query) max

/-- `host_parse`. -/
def hostParse (host : Str) : Result HostT :=
  let fields := sscanf [urlDomainFmt, .literal ':', urlPortFmt] host
  let out : HostT := ⟨fields.getD 0 [], fields.getD 1 []⟩
  if out.domain = [] then .error (.code .urlEparse) else .ok out

/-- `host_format`. -/
def hostFormat (host : HostT) (max : ℕ) : Result Str :=
  if host.port = [] then snprintfOrTooLong host.domain max
  else snprintfOrTooLong (host.domain ++ [':'] ++ host.port) max

/-- `url_normalize`. -/
def urlNormalize (url : Str) (max : ℕ) : Result Str := do
  urlFormat (← urlParse url) max

/-- `SUBDOMAIN_FMT`. -/
def subdomainFmt : Directive :=
  .scanset none fun c => c.isLower || c.isDigit || c == '-'

/-- `domain_reverse`: up to eight labels, last one first, each followed by a
comma, in parentheses. -/
def domainReverse (domain : Str) (max : ℕ) : Str :=
  let labels := sscanf [subdomainFmt, .literal '.', subdomainFmt, .literal '.', subdomainFmt,
    .literal '.', subdomainFmt, .literal '.', subdomainFmt, .literal '.', subdomainFmt,
    .literal '.', subdomainFmt, .literal '.', subdomainFmt] domain
  let listed := labels.reverse.foldl
    (fun out label => strlcat (strlcat out label max) [','] max) (strlcpy ['('] max)
  strlcat listed [')'] max

/-- `url_normalize_surt`. -/
def urlNormalizeSurt (url : Str) (max : ℕ) : Result Str := do
  let urlParsed ← urlParse url
  let hostParsed ← hostParse urlParsed.host
  let domainTmp := domainReverse hostParsed.domain urlDomainMax
  let hostTmp ← hostFormat { hostParsed with domain := domainTmp } urlHostMax
  urlFormat { urlParsed with host := hostTmp } max

example : urlNormalizeSurt "http://www.Example.com:8080/a?b#c".toList uriMax =
    .ok "http://(com,example,www,):8080/a?b".toList := by decide +kernel

/-! ## Errors -/

/-- The errors of the URL functions. -/
def IsUrlError (failure : Failure) : Prop :=
  failure = .code .urlEparse ∨ failure = .code .enametoolong

theorem urlCheck_error {out : UrlT} {failure : Failure} (failed : urlCheck out = .error failure) :
    IsUrlError failure := by
  unfold urlCheck at failed
  split_ifs at failed <;> cases failed <;> exact .inl rfl

theorem urlParse_error {url : Str} {failure : Failure} (failed : urlParse url = .error failure) :
    IsUrlError failure := by
  unfold urlParse at failed
  dsimp only at failed
  split at failed <;> split_ifs at failed <;>
    first
    | exact urlCheck_error failed
    | (cases failed; exact .inl rfl)

theorem snprintfOrTooLong_error {text : Str} {max : ℕ} {failure : Failure}
    (failed : snprintfOrTooLong text max = .error failure) : IsUrlError failure := by
  unfold snprintfOrTooLong at failed
  split_ifs at failed
  cases failed
  exact .inr rfl

theorem hostParse_error {host : Str} {failure : Failure} (failed : hostParse host = .error failure) :
    IsUrlError failure := by
  unfold hostParse at failed
  dsimp only at failed
  split_ifs at failed
  cases failed
  exact .inl rfl

theorem hostFormat_error {host : HostT} {max : ℕ} {failure : Failure}
    (failed : hostFormat host max = .error failure) : IsUrlError failure := by
  unfold hostFormat at failed
  split_ifs at failed <;> exact snprintfOrTooLong_error failed

/-- A URL without a SURT is refused with an error of the URL functions. -/
theorem urlNormalizeSurt_error {url : Str} {max : ℕ} {failure : Failure}
    (failed : urlNormalizeSurt url max = .error failure) : IsUrlError failure := by
  unfold urlNormalizeSurt at failed
  rcases Result.bind_eq_error.mp failed with parse | ⟨_, -, failed⟩
  · exact urlParse_error parse
  rcases Result.bind_eq_error.mp failed with parse | ⟨_, -, failed⟩
  · exact hostParse_error parse
  rcases Result.bind_eq_error.mp failed with format | ⟨_, -, failed⟩
  · exact hostFormat_error format
  · exact snprintfOrTooLong_error failed

end Url

end HashArchive
