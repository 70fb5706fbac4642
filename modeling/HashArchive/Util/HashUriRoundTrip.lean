import HashArchive.Util.HashUri
import HashArchive.Util.Url

/-!
# Formatting a hash link and parsing it back

`hash_uri_format` writes the digest through a local array. `hashUriFormat_link`
says which text it leaves for the five link types that carry the digest as hex
or base-64 digits: the text of as many bytes as the array has room for
(`digestRoom`). `hashUriParse_linkText` says that parsing the text of a digest,
of any length, gives the digest back. Together they decide the round trip
(`roundTrips_iff_room`): it fails for the one digest length that the base-64
arrays are too short for.
-/

set_option autoImplicit false

namespace HashArchive.Hash

open Regex

/-- The link types whose digest is written in hex or base 64. -/
def digitLinkTypes : List HashUriType :=
  [.linkHashUri, .linkNamedInfo, .linkPrefix, .linkSsb, .linkMagnet]

/-- The text of a digest in a link. -/
def digestText : HashUriType → List UInt8 → Str
  | .linkHashUri, digest | .linkMagnet, digest => hexText digest
  | .linkNamedInfo, digest => b64Text .url digest
  | .linkPrefix, digest | .linkSsb, digest => b64Text .std digest
  | _, _ => []

/-- The text of a link. -/
def linkText (type : HashUriType) (algo : HashAlgo) (digest : List UInt8) : Str :=
  match type with
  | .linkHashUri => "hash://".toList ++ (algo.name ++ '/' :: digestText type digest)
  | .linkNamedInfo => "ni:///".toList ++ (algo.name ++ ';' :: digestText type digest)
  | .linkPrefix => algo.name ++ '-' :: digestText type digest
  | .linkSsb => '&' :: (digestText type digest ++ '.' :: algo.name)
  | .linkMagnet =>
    "magnet:".toList ++ '?' :: ("xt=urn:".toList ++ (algo.name ++ ':' :: digestText type digest))
  | _ => []

section LinkText

variable (algo : HashAlgo) (digest : List UInt8)

theorem linkText_hashUri : linkText .linkHashUri algo digest =
    "hash://".toList ++ (algo.name ++ '/' :: hexText digest) := rfl

theorem linkText_namedInfo : linkText .linkNamedInfo algo digest =
    "ni:///".toList ++ (algo.name ++ ';' :: b64Text .url digest) := rfl

theorem linkText_linkPrefix : linkText .linkPrefix algo digest =
    algo.name ++ '-' :: b64Text .std digest := rfl

theorem linkText_ssb : linkText .linkSsb algo digest =
    '&' :: (b64Text .std digest ++ '.' :: algo.name) := rfl

theorem linkText_magnet : linkText .linkMagnet algo digest =
    "magnet:".toList ++ '?' :: ("xt=urn:".toList ++ (algo.name ++ ':' :: hexText digest)) := rfl

end LinkText

/-- How many bytes of a digest the local array of `hash_uri_format` has room for. -/
def digestRoom : HashUriType → ℕ
  | .linkHashUri | .linkMagnet => 64
  | _ => 63

/-! ## Formatting -/

variable (stack formatStack parseStack : Stack)

/-- **What `hash_uri_format` writes**: the link of the bytes its array has room for. -/
theorem hashUriFormat_link {type : HashUriType} (member : type ∈ digitLinkTypes) (algo : HashAlgo)
    (digest : List UInt8) {max : ℕ} (room : 0 < max) :
    hashUriFormat stack ⟨type, some algo, digest⟩ max =
      .ok (snprintf (linkText type algo (digest.take (digestRoom type))) max) := by
  obtain ⟨_, hex⟩ := hexEncode_spec digest (stack.uninitializedChars 129)
    (show 0 < 129 by decide) (by simp)
  obtain ⟨_, std⟩ := b64Encode_spec .std digest (stack.uninitializedChars 87)
    (show 0 < 87 by decide) (by simp)
  obtain ⟨_, url⟩ := b64Encode_spec .url digest (stack.uninitializedChars 87)
    (show 0 < 87 by decide) (by simp)
  have hexSize : hashDigestMax * 8 / 4 + 1 = 129 := rfl
  have b64Size : hashDigestMax * 8 / 6 + 1 + 1 = 87 := rfl
  simp only [digitLinkTypes, List.mem_cons, List.not_mem_nil, or_false] at member
  rcases member with rfl | rfl | rfl | rfl | rfl <;>
    (simp only [hashUriFormat, assertThat, gt_iff_lt, if_pos room, Result.ok_bind, hexSize, b64Size,
      Stack.length_uninitializedChars, hex, std, url, cString_append_nul (nul_not_mem_hexText _),
      cString_append_nul (nul_not_mem_b64Text _ _), List.append_assoc];
     rfl)

/-! ## Parsing -/

/-- The name of an algorithm is made of lower-case letters and digits. -/
theorem HashAlgo.name_chars (algo : HashAlgo) :
    (∀ c ∈ algo.name, (c.isLower || c.isDigit) = true) ∧ 3 ≤ algo.name.length := by
  refine ⟨List.all_eq_true.mp ?_, ?_⟩ <;> cases algo <;> decide

theorem alphanum_of_name {algo : HashAlgo} {c : Char} (member : c ∈ algo.name) :
    c.isAlphanum = true := by
  have chars := algo.name_chars.1 c member
  show ((c.isUpper || c.isLower) || c.isDigit) = true
  rw [Bool.or_assoc, chars, Bool.or_true]

theorem not_mem_name (algo : HashAlgo) (symbol : Char) (outside : ¬ symbol.isAlphanum = true) :
    symbol ∉ algo.name := fun member => outside (alphanum_of_name member)

theorem not_mem_hexText (digest : List UInt8) (symbol : Char)
    (outside : ¬ symbol.isAlphanum = true) : symbol ∉ hexText digest :=
  fun member => outside (hexText_alphanum symbol member)

/-- **The digest text of a link is decoded to the digest.** -/
theorem decodeCopy_digestText {form : LinkForm} (member : form ∈ linkForms) (digest : List UInt8) :
    form.decodeCopy (digestText form.type digest) = .ok digest := by
  have hex : hexDecodeCopy (hexText digest) = .ok digest :=
    hexDecode_hexText digest (by rw [length_hexText]; omega)
  have b64 : ∀ type, b64DecodeCopy (b64Text type digest) = .ok digest := by
    intro type
    obtain ⟨lower, -⟩ := length_b64Text_bounds type digest
    exact b64Decode_b64Text type digest (by omega)
  simp only [linkForms, List.mem_cons, List.not_mem_nil, or_false] at member
  rcases member with rfl | rfl | rfl | rfl | rfl
  · exact hex
  · exact b64 .url
  · exact b64 .std
  · exact hex
  · exact b64 .std

/-- What the parser of a form has to find in a link. -/
def FindsDigest (form : LinkForm) (algo : HashAlgo) (digest : List UInt8) : Prop :=
  ∃ m, regexec form.regex (linkText form.type algo digest) = some m ∧
    m.group form.algoGroup = algo.name ∧ m.group form.digestGroup = digestText form.type digest

theorem finds_hashUri (algo : HashAlgo) (digest : List UInt8) :
    FindsDigest hashUriForm algo digest := by
  have takes : Takes hashUriForm.regex ("hash://".toList ++ (algo.name ++ (['/'] ++
      (hexText digest ++ ([] ++ ([] ++ [])))))) [] :=
    (Takes.literal (by decide)).seq <|
    (Takes.repeated (fun c member => by simp [alphanum_of_name member])
      (by have := algo.name_chars.2; omega) (by simp)).group.seq <|
    (Takes.literal (by decide)).seq <|
    (Takes.repeated (fun c member => by simp [hexText_alphanum c member]) (by simp)
      (by simp)).group.seq <|
    Takes.absent.seq <| Takes.absent.seq .atEnd
  simp only [List.append_nil, List.cons_append, List.nil_append, ← linkText_hashUri] at takes
  obtain ⟨m, answer, way, -⟩ := takes.regexec_eq
  obtain ⟨scheme, name, digits, rest, split, folded, inName, -, tail, group1, group2⟩ :=
    hashUri_match way
  rw [linkText_hashUri] at split
  obtain ⟨-, afterScheme⟩ := List.append_inj split (by
    simpa using (congrArg List.length folded).symm)
  obtain ⟨rfl, whole⟩ := split_unique afterScheme (not_mem_name algo '/' (by decide))
    (not_mem_of_forall inName '/' (by decide))
  have noQuery := not_mem_hexText digest '?' (by decide)
  have noFragment := not_mem_hexText digest '#' (by decide)
  rw [whole, List.mem_append, not_or] at noQuery noFragment
  rcases tail with rfl | query | fragment
  · rw [List.append_nil] at whole
    exact ⟨m, answer, group1, group2.trans whole.symm⟩
  · exact absurd query noQuery.2
  · exact absurd fragment noFragment.2

theorem finds_namedInfo (algo : HashAlgo) (digest : List UInt8) :
    FindsDigest namedInfoForm algo digest := by
  have inText : ∀ c ∈ b64Text .url digest, (c.isAlphanum || c ∈ ['_', '-']) = true := by
    obtain ⟨text, pad, same, inside, -, padding⟩ := b64Text_eq_append .url digest
    intro c member
    rw [same, List.mem_append] at member
    rcases member with inDigits | inPad
    · obtain ⟨n, small, rfl⟩ := inside c inDigits
      exact b64Map_url_mem n small
    · exact absurd (padding c inPad).2 (by decide)
  have takes : Takes namedInfoForm.regex ("ni:///".toList ++ (algo.name ++ ([';'] ++
      (b64Text .url digest ++ [])))) [] :=
    (Takes.literal (by decide)).seq <|
    (Takes.repeated (fun c member => by simp [alphanum_of_name member])
      (by have := algo.name_chars.2; omega) (by simp)).group.seq <|
    (Takes.literal (by decide)).seq <|
    (Takes.repeated inText (by simp) (by simp)).group.seq .atEnd
  simp only [List.append_nil, List.cons_append, List.nil_append, ← linkText_namedInfo] at takes
  obtain ⟨m, answer, way, -⟩ := takes.regexec_eq
  obtain ⟨scheme, name, digits, split, folded, inName, -, group1, group2⟩ := namedInfo_match way
  rw [linkText_namedInfo] at split
  obtain ⟨-, afterScheme⟩ := List.append_inj split (by
    simpa using (congrArg List.length folded).symm)
  obtain ⟨rfl, rfl⟩ := split_unique afterScheme (not_mem_name algo ';' (by decide))
    (not_mem_of_forall inName ';' (by decide))
  exact ⟨m, answer, group1, group2⟩

theorem b64Text_std_chars (digest : List UInt8) :
    ∀ c ∈ b64Text .std digest, c.isAlphanum = true ∨ c = '+' ∨ c = '/' ∨ c = '=' := by
  obtain ⟨text, pad, same, inside, -, padding⟩ := b64Text_eq_append .std digest
  intro c member
  rw [same, List.mem_append] at member
  rcases member with inDigits | inPad
  · obtain ⟨n, small, rfl⟩ := inside c inDigits
    have digit := b64Map_std_mem n small
    simp only [List.mem_cons, List.not_mem_nil, or_false, Bool.or_eq_true, decide_eq_true_eq] at digit
    tauto
  · exact .inr (.inr (.inr (padding c inPad).1))

theorem finds_ssb (algo : HashAlgo) (digest : List UInt8) : FindsDigest ssbForm algo digest := by
  obtain ⟨text, pad, same, inside, short, padding⟩ := b64Text_eq_append .std digest
  have inText : ∀ c ∈ text, (c.isAlphanum || c ∈ ['+', '/']) = true := by
    intro c member
    obtain ⟨n, small, rfl⟩ := inside c member
    exact b64Map_std_mem n small
  have takes : Takes ssbForm.regex (['&'] ++ ((text ++ pad) ++ (['.'] ++ (algo.name ++ [])))) [] :=
    (Takes.literal (by decide)).seq <|
    ((Takes.repeated inText (by simp) (by simp)).seq
      (Takes.repeated (fun c member => by simp [(padding c member).1]) (by simp)
        (by simp; omega))).group.seq <|
    (Takes.literal (by decide)).seq <|
    (Takes.repeated algo.name_chars.1 algo.name_chars.2 (by simp)).group.seq .atEnd
  simp only [← same, List.append_nil, List.cons_append, List.nil_append, ← linkText_ssb] at takes
  obtain ⟨m, answer, way, -⟩ := takes.regexec_eq
  obtain ⟨digits, name, split, inDigits, -, group1, group2⟩ := ssb_match way
  rw [linkText_ssb, List.cons.injEq] at split
  obtain ⟨rfl, rfl⟩ := split_unique split.2
    (not_mem_of_forall (b64Text_std_chars digest) '.' (by decide))
    (not_mem_of_forall inDigits '.' (by decide))
  exact ⟨m, answer, group2, group1⟩

theorem finds_prefix (algo : HashAlgo) (digest : List UInt8) :
    FindsDigest prefixForm algo digest := by
  have takes : Takes prefixForm.regex (algo.name ++ (['-'] ++ (b64Text .std digest ++ []))) [] :=
    (Takes.repeated (fun c member => alphanum_of_name member)
      (by have := algo.name_chars.2; omega) (by simp)).group.seq <|
    (Takes.literal (by decide)).seq <|
    (Takes.repeated (fun c member => by
      have := b64Text_std_chars digest c member
      simp only [List.mem_cons, List.not_mem_nil, or_false, Bool.or_eq_true, decide_eq_true_eq]
      tauto) (by simp) (by simp)).group.seq .atEnd
  simp only [List.append_nil, List.cons_append, List.nil_append, ← linkText_linkPrefix] at takes
  obtain ⟨m, answer, way, -⟩ := takes.regexec_eq
  obtain ⟨name, digits, split, -, inName, -, group1, group2⟩ := prefix_match way
  rw [linkText_linkPrefix] at split
  obtain ⟨rfl, rfl⟩ := split_unique split (not_mem_name algo '-' (by decide))
    (not_mem_of_forall inName '-' (by decide))
  exact ⟨m, answer, group1, group2⟩

theorem magnet_name (algo : HashAlgo) :
    ∀ c ∈ algo.name, (c.toLower.isLower || c.isDigit) = true := by
  apply List.all_eq_true.mp
  cases algo <;> decide

theorem magnet_hexText (digest : List UInt8) :
    ∀ c ∈ hexText digest, (c.toLower.isLower || c.isDigit) = true := by
  have digits : ∀ n < 16, ((hexMap n).toLower.isLower || (hexMap n).isDigit) = true := by decide
  intro c member
  obtain ⟨n, small, rfl⟩ := exists_of_mem_hexText member
  exact digits n small

theorem finds_magnet (algo : HashAlgo) (digest : List UInt8) :
    FindsDigest magnetForm algo digest := by
  have takes : Takes magnetForm.regex ("magnet:".toList ++ ([] ++ (['?'] ++ ("xt=urn:".toList ++
      (algo.name ++ ([':'] ++ hexText digest)))))) [] :=
    (Takes.literal (by decide)).seq <|
    (Takes.repeated (by simp) (by simp) (by simp)).seq <|
    (Takes.char (by decide)).group.seq <|
    (Takes.literal (by decide)).seq <|
    (Takes.repeated (magnet_name algo) (by have := algo.name_chars.2; omega) (by simp)).group.seq <|
    (Takes.literal (by decide)).seq <|
    (Takes.repeated (magnet_hexText digest) (by simp) (by simp)).group
  simp only [List.cons_append, List.nil_append, ← linkText_magnet] at takes
  obtain ⟨m, answer, way, rest⟩ := takes.regexec_eq
  obtain ⟨scheme, anything, mark, urn, name, digits, split, folded, marked, urnFolded, inName, -,
    group2, group3⟩ := magnet_match way
  rw [linkText_magnet, rest, List.append_nil] at split
  obtain ⟨-, afterScheme⟩ := List.append_inj split (by
    simpa using (congrArg List.length folded).symm)
  -- The text has one `?` and no `&`, so there is one place for the query to start.
  have once : ∀ symbol, symbol = '?' ∨ symbol = '&' →
      symbol ∉ "xt=urn:".toList ++ (algo.name ++ ':' :: hexText digest) := by
    intro symbol query member
    have outside : ¬ symbol.isAlphanum = true ∧ symbol ∉ "xt=urn:".toList ∧ symbol ≠ ':' := by
      rcases query with rfl | rfl <;> decide
    simp only [List.mem_append, List.mem_cons] at member
    rcases member with inUrn | inName | colon | inDigest
    · exact outside.2.1 inUrn
    · exact not_mem_name algo symbol outside.1 inName
    · exact outside.2.2 colon
    · exact not_mem_hexText digest symbol outside.1 inDigest
  cases anything with
  | cons other anything =>
      rw [List.cons_append, List.cons.injEq] at afterScheme
      exact absurd (afterScheme.2 ▸ by simp) (once mark marked)
  | nil =>
      rw [List.nil_append, List.cons.injEq] at afterScheme
      obtain ⟨-, afterUrn⟩ := List.append_inj afterScheme.2 (by
        simpa using (congrArg List.length urnFolded).symm)
      obtain ⟨rfl, rfl⟩ := split_unique afterUrn (not_mem_name algo ':' (by decide))
        (not_mem_of_forall inName ':' (by decide))
      exact ⟨m, answer, group2, group3⟩

/-- **The parser of a form finds the algorithm and the digest of a link.** -/
theorem findsDigest {form : LinkForm} (member : form ∈ linkForms) (algo : HashAlgo)
    (digest : List UInt8) : FindsDigest form algo digest := by
  simp only [linkForms, List.mem_cons, List.not_mem_nil, or_false] at member
  rcases member with rfl | rfl | rfl | rfl | rfl
  · exact finds_hashUri algo digest
  · exact finds_namedInfo algo digest
  · exact finds_ssb algo digest
  · exact finds_magnet algo digest
  · exact finds_prefix algo digest

/-- **Parsing the link of a digest, of any length, gives the digest back.** -/
theorem hashUriParse_linkText {type : HashUriType} (member : type ∈ digitLinkTypes)
    (algo : HashAlgo) (digest : List UInt8) :
    hashUriParse parseStack (linkText type algo digest) = .ok ⟨type, some algo, digest⟩ := by
  obtain ⟨form, inForms, rfl⟩ : ∃ form ∈ linkForms, form.type = type := by
    simp only [digitLinkTypes, List.mem_cons, List.not_mem_nil, or_false] at member
    rcases member with rfl | rfl | rfl | rfl | rfl
    · exact ⟨hashUriForm, by simp [linkForms], rfl⟩
    · exact ⟨namedInfoForm, by simp [linkForms], rfl⟩
    · exact ⟨prefixForm, by simp [linkForms], rfl⟩
    · exact ⟨ssbForm, by simp [linkForms], rfl⟩
    · exact ⟨magnetForm, by simp [linkForms], rfl⟩
  obtain ⟨m, answer, algoText, digits⟩ := findsDigest inForms algo digest
  refine hashUriParse_of_form inForms (hashUriParseForm_eq_ok.mpr ⟨m, digest, answer, ?_, ?_⟩)
  · rw [digits, decodeCopy_digestText inForms]
  · rw [algoText, hashAlgoParse_name]

/-! ## The round trip -/

/-- Formatting into a buffer of `URI_MAX` characters and parsing the result gives
the same link type, algorithm and digest. -/
def RoundTrips (formatStack parseStack : Stack) (type : HashUriType) (algo : HashAlgo)
    (digest : List UInt8) : Prop :=
  ∃ text length, hashUriFormat formatStack ⟨type, some algo, digest⟩ uriMax = .ok (text, length) ∧
    hashUriParse parseStack text = .ok ⟨type, some algo, digest⟩

theorem length_linkText_lt {type : HashUriType} (member : type ∈ digitLinkTypes) (algo : HashAlgo)
    {digest : List UInt8} (short : digest.length ≤ digestRoom type) :
    (linkText type algo digest).length < uriMax := by
  have hex := length_hexText digest
  have std := (length_b64Text_bounds .std digest).2
  have url := (length_b64Text_bounds .url digest).2
  have name : algo.name.length ≤ 6 := by cases algo <;> decide
  simp only [digitLinkTypes, List.mem_cons, List.not_mem_nil, or_false] at member
  have schemes : "hash://".toList.length = 7 ∧ "ni:///".toList.length = 6 ∧
      "magnet:".toList.length = 7 ∧ "xt=urn:".toList.length = 7 := by decide
  rcases member with rfl | rfl | rfl | rfl | rfl <;>
    simp only [digestRoom] at short <;>
    simp only [linkText_hashUri, linkText_namedInfo, linkText_linkPrefix, linkText_ssb, linkText_magnet,
      List.length_append, List.length_cons, uriMax] <;>
    omega

/-- **The round trip loses nothing when the digest fits in the local array**, and
loses the bytes that do not fit when it does not. -/
theorem roundTrips_iff_room {type : HashUriType} (member : type ∈ digitLinkTypes) (algo : HashAlgo)
    (digest : List UInt8) :
    RoundTrips formatStack parseStack type algo digest ↔ digest.length ≤ digestRoom type := by
  have written := hashUriFormat_link formatStack member algo digest
    (show 0 < uriMax by decide)
  have kept : (digest.take (digestRoom type)).length ≤ digestRoom type := List.length_take_le _ _
  have whole := List.take_of_length_le
    (Nat.le_sub_one_of_lt (length_linkText_lt member algo kept))
  rw [snprintf, whole] at written
  have read := hashUriParse_linkText parseStack member algo
    (digest.take (digestRoom type))
  constructor
  · rintro ⟨text, length, formatted, parsed⟩
    rw [written] at formatted
    cases formatted
    rw [read] at parsed
    have same : digest.take (digestRoom type) = digest := by injections
    rw [← same]
    exact kept
  · intro room
    rw [List.take_of_length_le room] at written read
    exact ⟨_, _, written, read⟩

/-- The link types whose digest is written in base 64. -/
def base64LinkTypes : List HashUriType := [.linkNamedInfo, .linkPrefix, .linkSsb]

/-- **Formatting a digest and parsing it back loses nothing, except for a digest
of 64 bytes in a base-64 link.** The array of 87 characters ends one group short
of its text, so that the link carries its first 63 bytes only. -/
theorem roundTrips_iff_not_full_base64 {type : HashUriType} (member : type ∈ digitLinkTypes)
    (algo : HashAlgo) (digest : List UInt8) (nonempty : 1 ≤ digest.length)
    (bounded : digest.length ≤ algo.digestLen) :
    RoundTrips formatStack parseStack type algo digest ↔
      ¬ (type ∈ base64LinkTypes ∧ digest.length = hashDigestMax) := by
  have most : digest.length ≤ 64 := bounded.trans algo.digestLen_le
  rw [roundTrips_iff_room formatStack parseStack member]
  simp only [digitLinkTypes, List.mem_cons, List.not_mem_nil, or_false] at member
  rcases member with rfl | rfl | rfl | rfl | rfl <;>
    simp [digestRoom, base64LinkTypes, hashDigestMax] <;> omega

theorem roundTrips_iff_not_full_base64_md5 :
    RoundTrips (fun _ => 0) (fun _ => 0) .linkSsb .md5 [0, 255] ↔
      ¬ (HashUriType.linkSsb ∈ base64LinkTypes ∧ [(0 : UInt8), 255].length = hashDigestMax) :=
  roundTrips_iff_not_full_base64 _ _ (by decide) .md5 [0, 255] (by decide) (by decide)

/-- A SHA-512 digest does not survive a named info link. -/
theorem sha512_namedInfo_not_roundTrips :
    HashUriType.linkNamedInfo ∈ digitLinkTypes ∧ 1 ≤ (List.replicate 64 (0 : UInt8)).length ∧
      (List.replicate 64 (0 : UInt8)).length ≤ HashAlgo.sha512.digestLen ∧
      ¬ RoundTrips (fun _ => 0) (fun _ => 0) .linkNamedInfo .sha512 (List.replicate 64 0) := by
  refine ⟨by decide, by decide, by decide, ?_⟩
  rw [roundTrips_iff_room _ _ (by decide)]
  decide

end HashArchive.Hash
