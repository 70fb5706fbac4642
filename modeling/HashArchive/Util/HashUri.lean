import HashArchive.Foundations.Scanning
import HashArchive.Util.HashCodec
import HashArchive.Deps.Base58

/-!
# Hash links

`hash_uri_parse` and `hash_uri_format` of `util/hash.c`: the six ways to write a
digest as a link.

Five of the six parsers have one shape, a regular expression with a group for
the algorithm and a group for the digest, and a decoder for the digest
(`LinkForm`, `hashUriParseForm`). The sixth, for multihash, reads the algorithm
from the first of the decoded bytes.

`formOf` tells the six apart by the first character of a link and by whether it
has a colon or a dash. A link that one of the six expressions matches is of that
form (`formOf_of_mem_parses`, `formOf_of_mem_parses_multihash`), so no link is
matched by two of them: what the parser of a form accepts, `hash_uri_parse`
accepts (`hashUriParse_of_form`), and the other way round (`parser_of_hashUriParse`).
-/

set_option autoImplicit false

namespace HashArchive.Hash

/-- `hash_uri_type`. -/
inductive HashUriType where
  | linkNone
  | linkRaw
  | linkWebUrl
  | linkHashUri
  | linkNamedInfo
  | linkMultihash
  | linkPrefix
  | linkSsb
  | linkMagnet
deriving DecidableEq, Repr

/-- `hash_uri_t`; `algo` is `none` for an unknown algorithm, and `len` is the
length of `buf`. -/
structure HashUri where
  type : HashUriType
  algo : Option HashAlgo
  buf : List UInt8
deriving DecidableEq, Repr

/-- `multihash_algo_encode`; an algorithm without a code has 0. -/
def multihashAlgoEncode : HashAlgo → UInt8
  | .sha1 => 0x11
  | .sha256 => 0x12
  | .sha512 => 0x13
  | _ => 0

/-! ## Parsing -/

/-- `hex_decode_copy`. -/
def hexDecodeCopy (str : Str) : Result (List UInt8) :=
  hexDecode str str.length (str.length * 4 / 8 + 1)

/-- `b64_decode_copy`. -/
def b64DecodeCopy (str : Str) : Result (List UInt8) :=
  b64Decode str str.length (str.length * 6 / 8 + 1)

/-- The regular expression of a parser, the link type it stores, the groups with
the algorithm and the digest, and its decoder. -/
structure LinkForm where
  regex : Regex
  type : HashUriType
  algoGroup : ℕ
  digestGroup : ℕ
  decodeCopy : Str → Result (List UInt8)

/-- What the parsers share. -/
def hashUriParseForm (form : LinkForm) (URI : Str) : Result HashUri :=
  match regexec form.regex URI with
  | none => .error (.code .hashEparse)
  | some m => do
    let algo := hashAlgoParse (m.group form.algoGroup)
    let buf ← form.decodeCopy (m.group form.digestGroup)
    .ok { type := form.type, algo := algo, buf := buf }

/-- `"^hash://([[:alnum:].-]+)/([[:alnum:].%_-]*)(\\?[[:alnum:].%_=&-]+)?(#[[:alnum:].%_-]+)?$"`,
ignoring case. -/
def hashUriForm : LinkForm where
  regex :=
    .seq (.literal Char.toLower "hash://".toList) <|
    .seq (.group 1 (.repeated (fun c => c.isAlphanum || c ∈ ['.', '-']) 1 none)) <|
    .seq (.literal Char.toLower "/".toList) <|
    .seq (.group 2 (.repeated (fun c => c.isAlphanum || c ∈ ['.', '%', '_', '-']) 0 none)) <|
    .seq (.optional (.group 3 (.seq (.literal Char.toLower "?".toList)
      (.repeated (fun c => c.isAlphanum || c ∈ ['.', '%', '_', '=', '&', '-']) 1 none)))) <|
    .seq (.optional (.group 4 (.seq (.literal Char.toLower "#".toList)
      (.repeated (fun c => c.isAlphanum || c ∈ ['.', '%', '_', '-']) 1 none))))
    .atEnd
  type := .linkHashUri
  algoGroup := 1
  digestGroup := 2
  decodeCopy := hexDecodeCopy

/-- `"^([[:alnum:]]+)-([[:alnum:]/+=]*)$"`. -/
def prefixForm : LinkForm where
  regex :=
    .seq (.group 1 (.repeated (fun c => c.isAlphanum) 1 none)) <|
    .seq (.literal id "-".toList) <|
    .seq (.group 2 (.repeated (fun c => c.isAlphanum || c ∈ ['/', '+', '=']) 0 none))
    .atEnd
  type := .linkPrefix
  algoGroup := 1
  digestGroup := 2
  decodeCopy := b64DecodeCopy

/-- `"^ni:///([[:alnum:].-]+);([[:alnum:]_-]*)$"`, ignoring case. -/
def namedInfoForm : LinkForm where
  regex :=
    .seq (.literal Char.toLower "ni:///".toList) <|
    .seq (.group 1 (.repeated (fun c => c.isAlphanum || c ∈ ['.', '-']) 1 none)) <|
    .seq (.literal Char.toLower ";".toList) <|
    .seq (.group 2 (.repeated (fun c => c.isAlphanum || c ∈ ['_', '-']) 0 none))
    .atEnd
  type := .linkNamedInfo
  algoGroup := 1
  digestGroup := 2
  decodeCopy := b64DecodeCopy

/-- `"^&([a-zA-Z0-9+/]*={0,3})\\.([a-z0-9]{3,})$"`. -/
def ssbForm : LinkForm where
  regex :=
    .seq (.literal id "&".toList) <|
    .seq (.group 1 (.seq (.repeated (fun c => c.isAlphanum || c ∈ ['+', '/']) 0 none)
      (.repeated (· == '=') 0 (some 3)))) <|
    .seq (.literal id ".".toList) <|
    .seq (.group 2 (.repeated (fun c => c.isLower || c.isDigit) 3 none))
    .atEnd
  type := .linkSsb
  algoGroup := 2
  digestGroup := 1
  decodeCopy := b64DecodeCopy

/-- `"^magnet:.*(\\?|&)xt=urn:([a-z0-9]+):([a-z0-9]*)"`, ignoring case. -/
def magnetForm : LinkForm where
  regex :=
    .seq (.literal Char.toLower "magnet:".toList) <|
    .seq (.repeated (fun _ => true) 0 none) <|
    .seq (.group 1 (.char (· ∈ ['?', '&']))) <|
    .seq (.literal Char.toLower "xt=urn:".toList) <|
    .seq (.group 2 (.repeated (fun c => c.toLower.isLower || c.isDigit) 1 none)) <|
    .seq (.literal Char.toLower ":".toList)
    (.group 3 (.repeated (fun c => c.toLower.isLower || c.isDigit) 0 none))
  type := .linkMagnet
  algoGroup := 2
  digestGroup := 3
  decodeCopy := hexDecodeCopy

/-- The forms with a regular expression for the digest. -/
def linkForms : List LinkForm := [hashUriForm, namedInfoForm, ssbForm, magnetForm, prefixForm]

/-- `hash_uri_parse_hash_uri`. -/
def hashUriParseHashUri (URI : Str) : Result HashUri := hashUriParseForm hashUriForm URI

/-- `hash_uri_parse_prefix`. -/
def hashUriParsePrefix (URI : Str) : Result HashUri := hashUriParseForm prefixForm URI

/-- `hash_uri_parse_named_info`. -/
def hashUriParseNamedInfo (URI : Str) : Result HashUri := hashUriParseForm namedInfoForm URI

/-- `hash_uri_parse_ssb`. -/
def hashUriParseSsb (URI : Str) : Result HashUri := hashUriParseForm ssbForm URI

/-- `hash_uri_parse_magnet`. -/
def hashUriParseMagnet (URI : Str) : Result HashUri := hashUriParseForm magnetForm URI

/-- `b58_decode` into an array: the array afterwards and the size reported. -/
def b58Decode (str : Str) (out : List UInt8) : Result (List UInt8 × ℕ) := do
  let x := min out.length (str.length * 6 / 8)
  match ← Base58.b58tobin x str with
  | none => .error (.code .hashEparse)
  | some (bin, x) => do
    let out ← memcpy out 0 bin
    .ok (out, x)

/-- `"^[123456789ABCDEFGHJKLMNPQRSTUVWXYZabcdefghijkmnopqrstuvwxyz]{8,}$"`. -/
def multihashRegex : Regex :=
  .seq (.repeated (· ∈ Base58.b58digitsOrdered) 8 none) .atEnd

/-- `switch(tmp[0])` in `hash_uri_parse_multihash`. -/
def multihashAlgoDecode : Option UInt8 → Result HashAlgo
  | some 0x11 => .ok .sha1
  | some 0x12 => .ok .sha256
  | some 0x13 => .ok .sha512
  | _ => .error (.code .hashEparse)

/-- `hash_uri_parse_multihash`. -/
def hashUriParseMultihash (stack : Stack) (URI : Str) : Result HashUri :=
  match regexec multihashRegex URI with
  | none => .error (.code .hashEparse)
  | some m => do
    let (tmp, len) ← b58Decode m.text (stack.uninitialized (2 + hashDigestMax))
    if len < 2 then .error (.code .hashEparse) else
    let algo ← multihashAlgoDecode tmp.head?
    let buf ← readCells tmp 2 (len - 2)
    .ok { type := .linkMultihash, algo := some algo, buf := buf }

/-- `rc >= 0 ? rc : next`. -/
def orParse (rc next : Result HashUri) : Result HashUri :=
  match rc with
  | .error (.code _) => next
  | _ => rc

/-- `hash_uri_parse`. -/
def hashUriParse (stack : Stack) (URI : Str) : Result HashUri :=
  let rc := .error (.code .hashEparse)
  -- Note: These should be ordered from most specific to most generic.
  let rc := orParse rc (hashUriParseHashUri URI)
  let rc := orParse rc (hashUriParseNamedInfo URI)
  let rc := orParse rc (hashUriParseSsb URI)
  let rc := orParse rc (hashUriParseMagnet URI)
  let rc := orParse rc (hashUriParsePrefix URI)
  let rc := orParse rc (hashUriParseMultihash stack URI)
  rc

/-! ## Formatting -/

/-- `b58_encode` into an array of `max` characters: the string it leaves and the
size it returns. -/
def b58Encode (buf : List UInt8) (max : ℕ) : Result (Str × ℕ) := do
  match ← Base58.b58enc max buf with
  | none => .error (.fault .assertion)
  | some (text, x) => .ok (text, x)

/-- `hash_uri_format` into a buffer of `max` characters: the string it leaves and
the length it returns. -/
def hashUriFormat (stack : Stack) (obj : HashUri) (max : ℕ) : Result (Str × ℕ) := do
  assertThat (max > 0)
  match obj.algo with
  | none => .error (.code .hashEinval)
  | some algo =>
    let name := algo.name
    match obj.type with
    | .linkHashUri => do
      let hex := stack.uninitializedChars (hashDigestMax * 8 / 4 + 1)
      let (hex, _) ← hexEncode obj.buf hex hex.length
      .ok (snprintf ("hash://".toList ++ name ++ "/".toList ++ cString hex) max)
    | .linkNamedInfo => do
      let b64 := stack.uninitializedChars (hashDigestMax * 8 / 6 + 1 + 1)
      let (b64, _) ← b64Encode .url obj.buf b64 b64.length
      .ok (snprintf ("ni:///".toList ++ name ++ ";".toList ++ cString b64) max)
    | .linkMultihash => do
      let tmp := stack.uninitialized (2 + hashDigestMax)
      let tmp ← writeCell tmp 0 (multihashAlgoEncode algo)
      if 0 = multihashAlgoEncode algo then .error (.code .hashEnotsup) else
      let tmp ← writeCell tmp 1 (UInt8.ofNat algo.digestLen)
      let tmp ← memcpy tmp 2 obj.buf
      let bytes ← readCells tmp 0 (2 + obj.buf.length)
      let (b58, _) ← b58Encode bytes ((2 + hashDigestMax) * 8 / 5 + 1 + 1)
      .ok (snprintf b58 max)
    | .linkPrefix => do
      let b64 := stack.uninitializedChars (hashDigestMax * 8 / 6 + 1 + 1)
      let (b64, _) ← b64Encode .std obj.buf b64 b64.length
      .ok (snprintf (name ++ "-".toList ++ cString b64) max)
    | .linkSsb => do
      let b64 := stack.uninitializedChars (hashDigestMax * 8 / 6 + 1 + 1)
      let (b64, _) ← b64Encode .std obj.buf b64 b64.length
      .ok (snprintf ("&".toList ++ cString b64 ++ ".".toList ++ name) max)
    | .linkMagnet => do
      let hex := stack.uninitializedChars (hashDigestMax * 8 / 4 + 1)
      let (hex, _) ← hexEncode obj.buf hex hex.length
      .ok (snprintf ("magnet:?xt=urn:".toList ++ name ++ ":".toList ++ cString hex) max)
    | _ => .error (.code .hashEnotsup)

/-- `hash_uri_variant`: the string it leaves when it returns 0. -/
def hashUriVariant (stack : Stack) (obj : HashUri) (type : HashUriType) (max : ℕ) : Result Str := do
  let (out, _) ← hashUriFormat stack { obj with type := type } max
  .ok out

/-! ## Telling the forms apart -/

/-- The form of a link, from its first character, its colons and its dashes. -/
def formOf (URI : Str) : Option HashUriType :=
  let first := URI.head?.map Char.toLower
  if ':' ∈ URI then
    if first = some 'h' then some .linkHashUri
    else if first = some 'n' then some .linkNamedInfo
    else if first = some 'm' then some .linkMagnet
    else none
  else if first = some '&' then some .linkSsb
  else if '-' ∈ URI then some .linkPrefix
  else some .linkMultihash

/-- No character of a text without symbols is one of them. -/
theorem not_mem_of_forall {set : Char → Prop} {text : Str} (inside : ∀ c ∈ text, set c)
    (symbol : Char) (outside : ¬ set symbol) : symbol ∉ text :=
  fun member => outside (inside symbol member)

section Match

variable {URI : Str} {found : RegMatch}

/-- A match of an expression that begins with a scheme. -/
theorem scheme_of_mem_parses {text : Str} {body : Regex}
    (way : found ∈ (Regex.seq (.literal Char.toLower text) body).parses URI) (first : Char)
    (head : text.head? = some first) (colon : ':' ∈ text) :
    ':' ∈ URI ∧ URI.head?.map Char.toLower = some first := by
  obtain ⟨_, inScheme, -⟩ := Regex.mem_parses_seq.mp way
  obtain ⟨read, rest, rfl, rfl, -⟩ := Regex.mem_parses_literal.mp inScheme
  obtain ⟨c, member, lower⟩ := List.mem_map.mp colon
  have symbol : c = ':' := eq_of_toLower_eq lower (by decide)
  subst symbol
  cases read with
  | nil => simp at head
  | cons next read => exact ⟨List.mem_append_left _ member, by simpa using head⟩

/-- A text that is one symbol when read through `tolower` is that symbol. -/
theorem eq_of_map_toLower_eq {text : Str} {symbol : Char} (folded : text.map Char.toLower = [symbol])
    (noLetter : ¬ ('a' ≤ symbol ∧ symbol ≤ 'z')) : text = [symbol] := by
  obtain ⟨c, rfl, lower⟩ := List.map_eq_singleton_iff.mp folded
  rw [eq_of_toLower_eq lower noLetter]

/-- An optional part begins with its mark, or is absent. -/
theorem mark_of_mem_parses_optional {index : ℕ} {text : Str} {body : Regex}
    (way : found ∈ (Regex.optional (.group index (.seq (.literal Char.toLower text) body))).parses URI)
    (symbol : Char) (single : text = [symbol]) (noLetter : ¬ ('a' ≤ symbol ∧ symbol ≤ 'z')) :
    symbol ∈ URI ∨ found = ⟨[], URI, []⟩ := by
  rcases Regex.mem_parses_optional.mp way with present | absent
  · left
    obtain ⟨_, inGroup, -⟩ := Regex.mem_parses_group.mp present
    obtain ⟨_, atMark, -⟩ := Regex.mem_parses_seq.mp inGroup
    obtain ⟨mark, rest, rfl, folded, -⟩ := Regex.mem_parses_literal.mp atMark
    rw [eq_of_map_toLower_eq (folded.trans single) noLetter]
    simp
  · exact .inr absent

/-- What the expression for hash URIs matches. -/
theorem hashUri_match (way : found ∈ hashUriForm.regex.parses URI) :
    ∃ scheme algo digits rest, URI = scheme ++ (algo ++ '/' :: (digits ++ rest)) ∧
      scheme.map Char.toLower = "hash://".toList ∧
      (∀ c ∈ algo, c.isAlphanum = true ∨ c = '.' ∨ c = '-') ∧
      (∀ c ∈ digits, c.isAlphanum = true ∨ c = '.' ∨ c = '%' ∨ c = '_' ∨ c = '-') ∧
      (rest = [] ∨ '?' ∈ rest ∨ '#' ∈ rest) ∧ found.group 1 = algo ∧ found.group 2 = digits := by
  obtain ⟨_, atScheme, _, afterScheme, rfl⟩ := Regex.mem_parses_seq.mp way
  obtain ⟨scheme, _, rfl, folded, rfl⟩ := Regex.mem_parses_literal.mp atScheme
  obtain ⟨_, atAlgo, _, afterAlgo, rfl⟩ := Regex.mem_parses_seq.mp afterScheme
  obtain ⟨_, inAlgo, rfl⟩ := Regex.mem_parses_group.mp atAlgo
  obtain ⟨algo, _, rfl, algoSet, -, -, rfl⟩ := Regex.mem_parses_repeated.mp inAlgo
  obtain ⟨_, atSlash, _, afterSlash, rfl⟩ := Regex.mem_parses_seq.mp afterAlgo
  obtain ⟨slash, _, rfl, slashFolded, rfl⟩ := Regex.mem_parses_literal.mp atSlash
  obtain ⟨_, atDigits, _, afterDigits, rfl⟩ := Regex.mem_parses_seq.mp afterSlash
  obtain ⟨_, inDigits, rfl⟩ := Regex.mem_parses_group.mp atDigits
  obtain ⟨digits, rest, rfl, digitSet, -, -, rfl⟩ := Regex.mem_parses_repeated.mp inDigits
  obtain rfl : slash = ['/'] := eq_of_map_toLower_eq slashFolded (by decide)
  refine ⟨scheme, algo, digits, rest, by simp, folded, by simpa using algoSet,
    by simpa using digitSet, ?_, by simp [RegMatch.group], by simp [RegMatch.group, List.lookup_cons]⟩
  obtain ⟨query, atQuery, _, afterQuery, -⟩ := Regex.mem_parses_seq.mp afterDigits
  rcases mark_of_mem_parses_optional atQuery '?' rfl (by decide) with mark | rfl
  · exact .inr (.inl mark)
  obtain ⟨fragment, atFragment, _, atEnd, -⟩ := Regex.mem_parses_seq.mp afterQuery
  rcases mark_of_mem_parses_optional atFragment '#' rfl (by decide) with mark | rfl
  · exact .inr (.inr mark)
  · exact .inl (Regex.mem_parses_atEnd.mp atEnd).1

/-- What the expression for named info links matches. -/
theorem namedInfo_match (way : found ∈ namedInfoForm.regex.parses URI) :
    ∃ scheme algo digits, URI = scheme ++ (algo ++ ';' :: digits) ∧
      scheme.map Char.toLower = "ni:///".toList ∧
      (∀ c ∈ algo, c.isAlphanum = true ∨ c = '.' ∨ c = '-') ∧
      (∀ c ∈ digits, c.isAlphanum = true ∨ c = '_' ∨ c = '-') ∧
        found.group 1 = algo ∧ found.group 2 = digits := by
  obtain ⟨_, atScheme, _, afterScheme, rfl⟩ := Regex.mem_parses_seq.mp way
  obtain ⟨scheme, _, rfl, folded, rfl⟩ := Regex.mem_parses_literal.mp atScheme
  obtain ⟨_, atAlgo, _, afterAlgo, rfl⟩ := Regex.mem_parses_seq.mp afterScheme
  obtain ⟨_, inAlgo, rfl⟩ := Regex.mem_parses_group.mp atAlgo
  obtain ⟨algo, _, rfl, algoSet, -, -, rfl⟩ := Regex.mem_parses_repeated.mp inAlgo
  obtain ⟨_, atMark, _, afterMark, rfl⟩ := Regex.mem_parses_seq.mp afterAlgo
  obtain ⟨mark, _, rfl, markFolded, rfl⟩ := Regex.mem_parses_literal.mp atMark
  obtain ⟨_, atDigits, _, atEnd, rfl⟩ := Regex.mem_parses_seq.mp afterMark
  obtain ⟨_, inDigits, rfl⟩ := Regex.mem_parses_group.mp atDigits
  obtain ⟨digits, rest, rfl, digitSet, -, -, rfl⟩ := Regex.mem_parses_repeated.mp inDigits
  obtain rfl : mark = [';'] := eq_of_map_toLower_eq markFolded (by decide)
  obtain ⟨rfl, rfl⟩ := Regex.mem_parses_atEnd.mp atEnd
  exact ⟨scheme, algo, digits, by simp, folded, by simpa using algoSet, by simpa using digitSet,
    by simp [RegMatch.group], by simp [RegMatch.group, List.lookup_cons]⟩

/-- What the expression for magnet links matches. -/
theorem magnet_match (way : found ∈ magnetForm.regex.parses URI) :
    ∃ scheme anything mark urn algo digits,
      URI = scheme ++ (anything ++ mark :: (urn ++ (algo ++ ':' :: (digits ++ found.rest)))) ∧
      scheme.map Char.toLower = "magnet:".toList ∧ (mark = '?' ∨ mark = '&') ∧
      urn.map Char.toLower = "xt=urn:".toList ∧
      (∀ c ∈ algo, c.toLower.isLower = true ∨ c.isDigit = true) ∧
      (∀ c ∈ digits, c.toLower.isLower = true ∨ c.isDigit = true) ∧
        found.group 2 = algo ∧ found.group 3 = digits := by
  obtain ⟨_, atScheme, _, afterScheme, rfl⟩ := Regex.mem_parses_seq.mp way
  obtain ⟨scheme, _, rfl, folded, rfl⟩ := Regex.mem_parses_literal.mp atScheme
  obtain ⟨_, atAnything, _, afterAnything, rfl⟩ := Regex.mem_parses_seq.mp afterScheme
  obtain ⟨anything, _, rfl, -, -, -, rfl⟩ := Regex.mem_parses_repeated.mp atAnything
  obtain ⟨_, atMark, _, afterMark, rfl⟩ := Regex.mem_parses_seq.mp afterAnything
  obtain ⟨_, inMark, rfl⟩ := Regex.mem_parses_group.mp atMark
  obtain ⟨mark, _, rfl, markSet, rfl⟩ := Regex.mem_parses_char.mp inMark
  obtain ⟨_, atUrn, _, afterUrn, rfl⟩ := Regex.mem_parses_seq.mp afterMark
  obtain ⟨urn, _, rfl, urnFolded, rfl⟩ := Regex.mem_parses_literal.mp atUrn
  obtain ⟨_, atAlgo, _, afterAlgo, rfl⟩ := Regex.mem_parses_seq.mp afterUrn
  obtain ⟨_, inAlgo, rfl⟩ := Regex.mem_parses_group.mp atAlgo
  obtain ⟨algo, _, rfl, algoSet, -, -, rfl⟩ := Regex.mem_parses_repeated.mp inAlgo
  obtain ⟨_, atColon, _, atDigits, rfl⟩ := Regex.mem_parses_seq.mp afterAlgo
  obtain ⟨colon, _, rfl, colonFolded, rfl⟩ := Regex.mem_parses_literal.mp atColon
  obtain ⟨_, inDigits, rfl⟩ := Regex.mem_parses_group.mp atDigits
  obtain ⟨digits, rest, rfl, digitSet, -, -, rfl⟩ := Regex.mem_parses_repeated.mp inDigits
  obtain rfl : colon = [':'] := eq_of_map_toLower_eq colonFolded (by decide)
  exact ⟨scheme, anything, mark, urn, algo, digits, by simp, folded, by simpa using markSet,
    urnFolded, by simpa using algoSet, by simpa using digitSet,
    by simp [RegMatch.group, List.lookup_cons], by simp [RegMatch.group, List.lookup_cons]⟩

/-- What the expression for SSB links matches. -/
theorem ssb_match (way : found ∈ ssbForm.regex.parses URI) :
    ∃ digits algo, URI = '&' :: (digits ++ '.' :: algo) ∧
      (∀ c ∈ digits, c.isAlphanum = true ∨ c = '+' ∨ c = '/' ∨ c = '=') ∧
      (∀ c ∈ algo, c.isLower = true ∨ c.isDigit = true) ∧ found.group 1 = digits ∧
        found.group 2 = algo := by
  simp [ssbForm] at way
  obtain ⟨digits, pad, algo, rfl, ⟨⟨inDigits, inPad, -⟩, inAlgo, -⟩, rfl⟩ := way
  refine ⟨digits ++ pad, algo, by simp, ?_, inAlgo, by simp [RegMatch.group],
    by simp [RegMatch.group, List.lookup_cons]⟩
  intro c member
  rcases List.mem_append.mp member with inText | inText
  · have := inDigits c inText
    tauto
  · have := inPad c inText
    tauto

/-- What the expression for prefix links matches. -/
theorem prefix_match (way : found ∈ prefixForm.regex.parses URI) :
    ∃ algo digits, URI = algo ++ '-' :: digits ∧ 1 ≤ algo.length ∧
      (∀ c ∈ algo, c.isAlphanum = true) ∧
      (∀ c ∈ digits, c.isAlphanum = true ∨ c = '/' ∨ c = '+' ∨ c = '=') ∧
        found.group 1 = algo ∧ found.group 2 = digits := by
  simp [prefixForm] at way
  obtain ⟨algo, digits, ⟨rfl, inAlgo, nonempty⟩, inDigits, rfl⟩ := way
  exact ⟨algo, digits, rfl, nonempty, inAlgo, inDigits, by simp [RegMatch.group],
    by simp [RegMatch.group, List.lookup_cons]⟩

/-- **A link that one of the expressions matches is of its form.** -/
theorem formOf_of_mem_parses {form : LinkForm} (member : form ∈ linkForms)
    (way : found ∈ form.regex.parses URI) : formOf URI = some form.type := by
  simp only [linkForms, List.mem_cons, List.not_mem_nil, or_false] at member
  rcases member with rfl | rfl | rfl | rfl | rfl
  · obtain ⟨colon, head⟩ := scheme_of_mem_parses way 'h' (by decide) (by decide)
    simp [formOf, colon, head, hashUriForm]
  · obtain ⟨colon, head⟩ := scheme_of_mem_parses way 'n' (by decide) (by decide)
    simp [formOf, colon, head, namedInfoForm]
  · obtain ⟨digits, algo, rfl, inDigits, inAlgo, -⟩ := ssb_match way
    have noDigit := not_mem_of_forall inDigits ':' (by decide)
    have noAlgo := not_mem_of_forall inAlgo ':' (by decide)
    simp [formOf, noDigit, noAlgo, ssbForm]
  · obtain ⟨colon, head⟩ := scheme_of_mem_parses way 'm' (by decide) (by decide)
    simp [formOf, colon, head, magnetForm]
  · obtain ⟨algo, digits, rfl, nonempty, inAlgo, inDigits, -⟩ := prefix_match way
    have noAlgo := not_mem_of_forall inAlgo ':' (by decide)
    have noDigit := not_mem_of_forall inDigits ':' (by decide)
    obtain ⟨first, algo, rfl⟩ := List.exists_cons_of_length_pos nonempty
    have noMark : first.toLower ≠ '&' := fun folded => by
      have mark : first = '&' := eq_of_toLower_eq folded (by decide)
      exact absurd (inAlgo first List.mem_cons_self) (mark ▸ by decide)
    simp_all [formOf, prefixForm]

theorem formOf_of_mem_parses_multihash
    (way : found ∈ multihashRegex.parses URI) : formOf URI = some .linkMultihash := by
  simp [multihashRegex] at way
  obtain ⟨⟨digits, -⟩, -⟩ := way
  have noColon := not_mem_of_forall digits ':' (by decide)
  have noDash := not_mem_of_forall digits '-' (by decide)
  have noMark := not_mem_of_forall digits '&' (by decide)
  have head : URI.head?.map Char.toLower ≠ some '&' := by
    intro folded
    obtain ⟨first, atHead, lower⟩ := Option.map_eq_some_iff.mp folded
    have mark : first = '&' := eq_of_toLower_eq lower (by decide)
    exact noMark (mark ▸ List.mem_of_mem_head? atHead)
  simp [formOf, noColon, noDash, head]

end Match

/-- Forms are told apart by the type they store. -/
theorem linkForm_eq_of_type_eq {first second : LinkForm} (inFirst : first ∈ linkForms)
    (inSecond : second ∈ linkForms) (same : first.type = second.type) : first = second := by
  simp only [linkForms, List.mem_cons, List.not_mem_nil, or_false] at inFirst inSecond
  rcases inFirst with rfl | rfl | rfl | rfl | rfl <;>
    rcases inSecond with rfl | rfl | rfl | rfl | rfl <;>
      first | exact absurd same (by decide) | rfl

theorem linkForm_type_ne_multihash {form : LinkForm} (member : form ∈ linkForms) :
    form.type ≠ .linkMultihash := by
  simp only [linkForms, List.mem_cons, List.not_mem_nil, or_false] at member
  rcases member with rfl | rfl | rfl | rfl | rfl <;> decide

/-- A parser does not accept a link of another form. -/
theorem hashUriParseForm_of_formOf_ne {form : LinkForm} (member : form ∈ linkForms) {URI : Str}
    (other : formOf URI ≠ some form.type) :
    hashUriParseForm form URI = .error (.code .hashEparse) := by
  cases answer : regexec form.regex URI with
  | none => simp [hashUriParseForm, answer]
  | some m => exact absurd (formOf_of_mem_parses member (regexec_eq_some answer).1) other

/-- What a parser accepts. -/
theorem hashUriParseForm_eq_ok {form : LinkForm} {URI : Str} {obj : HashUri} :
    hashUriParseForm form URI = .ok obj ↔
      ∃ m buf, regexec form.regex URI = some m ∧ form.decodeCopy (m.group form.digestGroup) = .ok buf ∧
        obj = ⟨form.type, hashAlgoParse (m.group form.algoGroup), buf⟩ := by
  unfold hashUriParseForm
  cases answer : regexec form.regex URI with
  | none => simp
  | some m =>
      cases decoded : form.decodeCopy (m.group form.digestGroup) with
      | error failure => simp [decoded]
      | ok buf => simp [decoded, eq_comm]

@[simp] theorem orParse_ok (obj : HashUri) (next : Result HashUri) :
    orParse (.ok obj) next = .ok obj := rfl

@[simp] theorem orParse_code (code : ErrorCode) (next : Result HashUri) :
    orParse (.error (.code code)) next = next := rfl

theorem orParse_eq_ok {rc next : Result HashUri} {obj : HashUri} :
    orParse rc next = .ok obj ↔
      rc = .ok obj ∨ (∃ code, rc = .error (.code code)) ∧ next = .ok obj := by
  rcases rc with (code | fault) | parsed <;> simp [orParse]

/-- A link of a form is accepted by `hash_uri_parse` when the parser of the form
accepts it: no earlier parser takes it. -/
theorem hashUriParse_of_form {form : LinkForm} (member : form ∈ linkForms) {stack : Stack}
    {URI : Str} {obj : HashUri} (accepted : hashUriParseForm form URI = .ok obj) :
    hashUriParse stack URI = .ok obj := by
  obtain ⟨m, _, answer, -, -⟩ := hashUriParseForm_eq_ok.mp accepted
  have shape := formOf_of_mem_parses member (regexec_eq_some answer).1
  have earlier : ∀ other ∈ linkForms, form.type ≠ other.type →
      hashUriParseForm other URI = .error (.code .hashEparse) := fun other inForms differs =>
    hashUriParseForm_of_formOf_ne inForms (by simpa [shape] using differs)
  simp only [linkForms, List.mem_cons, List.not_mem_nil, or_false, forall_eq_or_imp,
    forall_eq] at member earlier
  obtain ⟨notHash, notNamed, notSsb, notMagnet, -⟩ := earlier
  rcases member with rfl | rfl | rfl | rfl | rfl
  · simp [hashUriParse, hashUriParseHashUri, accepted]
  · simp [hashUriParse, hashUriParseHashUri, hashUriParseNamedInfo, accepted, notHash (by decide)]
  · simp [hashUriParse, hashUriParseHashUri, hashUriParseNamedInfo, hashUriParseSsb, accepted,
      notHash (by decide), notNamed (by decide)]
  · simp [hashUriParse, hashUriParseHashUri, hashUriParseNamedInfo, hashUriParseSsb,
      hashUriParseMagnet, accepted, notHash (by decide), notNamed (by decide), notSsb (by decide)]
  · simp [hashUriParse, hashUriParseHashUri, hashUriParseNamedInfo, hashUriParseSsb,
      hashUriParseMagnet, hashUriParsePrefix, accepted, notHash (by decide), notNamed (by decide),
      notSsb (by decide), notMagnet (by decide)]

/-- **What `hash_uri_parse` accepts, one of its parsers accepts.** -/
theorem parser_of_hashUriParse {stack : Stack} {URI : Str} {obj : HashUri}
    (accepted : hashUriParse stack URI = .ok obj) :
    (∃ form ∈ linkForms, hashUriParseForm form URI = .ok obj) ∨
      hashUriParseMultihash stack URI = .ok obj := by
  simp only [hashUriParse, orParse_eq_ok, reduceCtorEq, false_or] at accepted
  rcases accepted with ((((⟨-, taken⟩ | ⟨-, taken⟩) | ⟨-, taken⟩) | ⟨-, taken⟩) | ⟨-, taken⟩) |
    ⟨-, taken⟩
  · exact .inl ⟨hashUriForm, by simp [linkForms], taken⟩
  · exact .inl ⟨namedInfoForm, by simp [linkForms], taken⟩
  · exact .inl ⟨ssbForm, by simp [linkForms], taken⟩
  · exact .inl ⟨magnetForm, by simp [linkForms], taken⟩
  · exact .inl ⟨prefixForm, by simp [linkForms], taken⟩
  · exact .inr taken

end HashArchive.Hash
