import HashArchive.Util.UrlParts

/-!
# The host of a request

`listener` of `server.c` refuses a request whose `Host` header does not name the archive or
`localhost`, as a protection against DNS rebinding. It compares the domain that `host_parse`
takes from the front of the header; what follows the domain is not looked at. So a header
of another host that begins with an allowed domain is let through, unless only a port
follows (`hostCheck_allowed_iff`).
-/

set_option autoImplicit false

namespace HashArchive.Server

open Url

/-- `CONFIG_HOSTNAME_EXPECTED`; `NULL` allows any host. -/
def configHostnameExpected : Option Str := some "hash-archive.org".toList

/-- The host that is allowed besides. -/
def localhost : Str := "localhost".toList

/-- Why `listener` refuses a request. -/
inductive Refusal where
  | parse (failure : Failure)
  | uvEacces
deriving DecidableEq, Repr

/-- `0 == strcasecmp(first, second)`. -/
def EqualFolded (first second : Str) : Prop := strlower first = strlower second

instance (first second : Str) : Decidable (EqualFolded first second) :=
  inferInstanceAs (Decidable (strlower first = strlower second))

/-- The check `listener` makes on the `Host` header, and what it has parsed. -/
def hostCheck (host : Str) : Except Refusal HostT :=
  let parse := hostParse host
  -- A host that is not parsed leaves an empty domain.
  let obj := match parse with
    | .ok obj => obj
    | .error _ => ⟨[], []⟩
  if ∃ expected ∈ configHostnameExpected,
      ¬ EqualFolded obj.domain expected ∧ ¬ EqualFolded obj.domain localhost then
    .error .uvEacces
  else match parse with
    | .ok obj => .ok obj
    | .error failure => .error (.parse failure)

/-- A header that names an allowed host, with or without a port, and nothing else. -/
def NamesAllowed (header : Str) : Prop :=
  ∃ host ∈ configHostnameExpected.toList ++ [localhost], EqualFolded header host ∨
    ∃ port, port ≠ [] ∧ (∀ c ∈ port, c.isDigit = true) ∧ EqualFolded header (host ++ ':' :: port)

/-- A character of a domain. -/
def isDomainChar (c : Char) : Bool := c.isAlphanum || c == '.' || c == '-'

/-- What follows the domain in a header. -/
def afterDomain (header : Str) : Str := header.dropWhile isDomainChar

/-- Nothing follows the domain, or a port of at most 15 digits. -/
def EndsInPort (header : Str) : Prop :=
  afterDomain header = [] ∨ ∃ port, afterDomain header = ':' :: port ∧ port ≠ [] ∧
    port.length ≤ 15 ∧ ∀ c ∈ port, c.isDigit = true

/-! ## What is let through -/

/-- A header that is let through was parsed, and its domain is allowed. -/
theorem hostCheck_eq_ok {header : Str} {obj : HostT} (admitted : hostCheck header = .ok obj) :
    hostParse header = .ok obj ∧
      ∃ host ∈ configHostnameExpected.toList ++ [localhost], EqualFolded obj.domain host := by
  unfold hostCheck at admitted
  dsimp only at admitted
  split_ifs at admitted with refused
  cases parse : hostParse header with
  | error failure =>
      rw [parse] at admitted
      cases admitted
  | ok parsed =>
      rw [parse] at admitted refused
      cases admitted
      refine ⟨rfl, by_contra fun other => refused ⟨"hash-archive.org".toList, rfl, ?_, ?_⟩⟩
      · exact fun same => other ⟨_, List.mem_cons_self, same⟩
      · exact fun same => other ⟨_, List.mem_cons_of_mem _ List.mem_cons_self, same⟩

/-- An allowed domain is far from its limit. -/
theorem length_of_allowed {domain host : Str}
    (allowed : host ∈ configHostnameExpected.toList ++ [localhost])
    (same : EqualFolded domain host) : domain.length ≤ 16 := by
  have length := congrArg List.length same
  rw [length_strlower, length_strlower] at length
  rcases List.mem_pair.mp allowed with rfl | rfl
  · exact length.le
  · exact length.trans_le (by decide)

/-- The port that is scanned after the domain. -/
def scannedPort (left : Str) : Str := (sscanf [.literal ':', urlPortFmt] left).getD 0 []

theorem scannedPort_colon (left : Str) :
    scannedPort (':' :: left) = scansetMatch (some 15) Char.isDigit left := by
  rw [scannedPort, sscanf, if_pos rfl, urlPortFmt, getD_sscanf_scanset]

theorem scannedPort_of_ne {left : Str} (port : scannedPort left ≠ []) :
    ∃ rest, left = ':' :: rest := by
  by_contra other
  refine port ?_
  cases left with
  | nil => rfl
  | cons first left =>
      have noColon : first ≠ ':' := fun same => other ⟨left, congrArg (· :: left) same⟩
      rw [scannedPort, sscanf, if_neg noColon]
      rfl

/-- **What `host_parse` takes** of a header with a domain that is not too long. -/
theorem hostParse_append {domain left : Str} {obj : HostT}
    (inside : ∀ c ∈ domain, isDomainChar c = true)
    (outside : ∀ c ∈ left.head?, isDomainChar c = false)
    (parsed : hostParse (domain ++ left) = .ok obj) (short : obj.domain.length < 255) :
    obj = ⟨domain, scannedPort left⟩ := by
  have taken : (sscanf [urlDomainFmt, .literal ':', urlPortFmt] (domain ++ left)).getD 0 [] =
      scansetMatch (some 255) isDomainChar (domain ++ left) := getD_sscanf_scanset _ _ _
  unfold hostParse at parsed
  dsimp only at parsed
  split_ifs at parsed with empty
  cases parsed
  rw [taken] at short empty
  rcases Nat.lt_or_ge domain.length 255 with fits | long
  · rw [scansetMatch_of_stop inside outside (by simpa using fits.le)] at empty
    rw [show sscanf [urlDomainFmt, .literal ':', urlPortFmt] (domain ++ left) =
      domain :: sscanf [.literal ':', urlPortFmt] left from
        sscanf_of_stop inside empty outside (by simpa using fits.le)]
    rfl
  · rw [scansetMatch_of_long inside long, List.length_take_of_le long] at short
    exact absurd short (Nat.lt_irrefl 255)

/-- **What is let through**: exactly the headers that end after their domain or a port name
an allowed host and are given back by `host_format`. -/
theorem hostCheck_allowed_iff {header : Str} {obj : HostT}
    (admitted : hostCheck header = .ok obj) :
    (NamesAllowed header ∧ hostFormat obj urlHostMax = .ok header) ↔ EndsInPort header := by
  obtain ⟨parsed, host, allowed, same⟩ := hostCheck_eq_ok admitted
  obtain ⟨domain, left, rfl, inside, outside⟩ := exists_run isDomainChar header
  have few := length_of_allowed allowed same
  obtain rfl := hostParse_append inside outside parsed (by omega)
  have after : afterDomain (domain ++ left) = left := dropWhile_of_stop inside outside
  rw [EndsInPort, after]
  constructor
  · rintro ⟨-, format⟩
    unfold hostFormat at format
    split_ifs at format with noPort
    · have text := (snprintfOrTooLong_eq_ok.mp format).2
      exact .inl (List.append_right_eq_self.mp text)
    · have text := (snprintfOrTooLong_eq_ok.mp format).2
      obtain ⟨rest, rfl⟩ := scannedPort_of_ne noPort
      rw [List.append_assoc] at text
      have digits := (List.cons.inj (List.append_cancel_left text)).2
      rw [scannedPort_colon] at digits noPort
      refine .inr ⟨rest, rfl, digits ▸ noPort, ?_, ?_⟩
      · exact digits ▸ length_scansetMatch_le 15 _ _
      · intro c member
        rw [digits] at member
        exact of_mem_scansetMatch member
  · rintro (rfl | ⟨port, rfl, some, fits, digits⟩)
    · rw [List.append_nil]
      refine ⟨⟨host, allowed, .inl same⟩, ?_⟩
      rw [hostFormat, if_pos (by rfl), snprintfOrTooLong_eq_ok]
      exact ⟨Nat.lt_of_le_of_lt few (by decide), rfl⟩
    · have taken : scannedPort (':' :: port) = port := by
        have run := @scansetMatch_of_stop _ _ [] (Option.some 15) digits (by simp)
          (by simpa using fits)
        rwa [List.append_nil, ← scannedPort_colon] at run
      refine ⟨⟨host, allowed, .inr ⟨port, some, digits, ?_⟩⟩, ?_⟩
      · show strlower (domain ++ ':' :: port) = strlower (host ++ ':' :: port)
        rw [strlower_append, strlower_append, show strlower domain = strlower host from same]
      · rw [taken, hostFormat, if_neg some, snprintfOrTooLong_eq_ok]
        simp only [urlHostMax, List.length_append, List.length_cons, List.length_nil] at few ⊢
        exact ⟨by omega, by simp⟩

theorem hostCheck_allowed_sample :
    (NamesAllowed "LocalHost:8000".toList ∧
      hostFormat ⟨"LocalHost".toList, "8000".toList⟩ urlHostMax = .ok "LocalHost:8000".toList) ↔
        EndsInPort "LocalHost:8000".toList :=
  hostCheck_allowed_iff (by decide +kernel)

/-- **Another host that is let through**: its name begins with an allowed one. -/
theorem other_host_admitted :
    hostCheck "localhost_.example.com".toList = .ok ⟨localhost, []⟩ ∧
      ¬ NamesAllowed "localhost_.example.com".toList ∧
      hostFormat ⟨localhost, []⟩ urlHostMax ≠ .ok "localhost_.example.com".toList := by
  refine ⟨by decide +kernel, ?_, by decide +kernel⟩
  rintro ⟨host, allowed, same | ⟨port, -, -, same⟩⟩
  · rcases List.mem_pair.mp allowed with rfl | rfl
    · exact absurd same (by decide)
    · exact absurd same (by decide)
  · have colon : ':' ∈ strlower (host ++ ':' :: port) := by
      rw [strlower_append]
      exact List.mem_append_right _ List.mem_cons_self
    rw [← show strlower "localhost_.example.com".toList = _ from same] at colon
    exact absurd colon (by decide)

end HashArchive.Server
