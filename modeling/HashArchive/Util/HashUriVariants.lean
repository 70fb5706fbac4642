import HashArchive.Util.HashUriBounds
import HashArchive.Util.MultihashRoundTrip

/-!
# Normal forms and variants of hash links

`hash_uri_normalize` parses a link and formats what it has read; `hash_uri_variant` formats it
as a link of another type. Both cut a digest off that has no room in the local array of
`hash_uri_format`, and the arrays for hex and for base 64 have different sizes.

A normal form is its own normal form (`hashUriNormalize_idempotent`). A link that is changed to
one type and then to another is the same as when it is changed at once, unless the first type
has less room for the digest than the second and the digest needs it (`variant_through_iff`).
-/

set_option autoImplicit false

namespace HashArchive.Hash

/-- `hash_uri_normalize`. -/
def hashUriNormalize (stack : Stack) (URI : Str) (max : ℕ) : Result Str := do
  let obj ← hashUriParse stack URI
  let (out, _) ← hashUriFormat stack obj max
  .ok out

/-! ## What is parsed -/

theorem mem_of_multihashAlgoDecode {byte : Option UInt8} {algo : HashAlgo}
    (known : multihashAlgoDecode byte = .ok algo) : algo ∈ multihashAlgos := by
  unfold multihashAlgoDecode at known
  split at known <;> cases known <;> decide

section Parsed

variable {stack : Stack} {URI : Str} {obj : HashUri}

/-- A link has one of six types; a multihash link names an algorithm that has a code. -/
theorem type_of_hashUriParse (parsed : hashUriParse stack URI = .ok obj) :
    obj.type ∈ digitLinkTypes ∨
      (obj.type = .linkMultihash ∧ ∃ algo ∈ multihashAlgos, obj.algo = some algo ∧
        obj.buf.length ≤ hashDigestMax) := by
  rcases parser_of_hashUriParse parsed with ⟨form, member, taken⟩ | taken
  · left
    obtain ⟨m, buf, -, -, rfl⟩ := hashUriParseForm_eq_ok.mp taken
    have types : ∀ form ∈ linkForms, form.type ∈ digitLinkTypes := by
      simp [linkForms, digitLinkTypes, hashUriForm, namedInfoForm, ssbForm, magnetForm, prefixForm]
    exact types form member
  · right
    have fits := (hashUriParseMultihash_fits taken).2
    unfold hashUriParseMultihash at taken
    cases answer : regexec multihashRegex URI with
    | none => simp [answer] at taken
    | some m =>
        rw [answer] at taken
        obtain ⟨⟨tmp, len⟩, -, taken⟩ := Result.bind_eq_ok.mp taken
        by_cases short : len < 2
        · simp only [if_pos short] at taken
          cases taken
        · simp only [if_neg short] at taken
          obtain ⟨algo, known, taken⟩ := Result.bind_eq_ok.mp taken
          obtain ⟨buf, -, taken⟩ := Result.bind_eq_ok.mp taken
          cases taken
          exact ⟨rfl, algo, mem_of_multihashAlgoDecode known, rfl, fits⟩

end Parsed

/-! ## What is formatted -/

section Formatted

variable {algo : HashAlgo} {digest : List UInt8} {type : HashUriType}

/-- The part of a digest that has room fits a buffer of `URI_MAX` characters as well. -/
theorem snprintf_linkText (member : type ∈ digitLinkTypes) :
    (snprintf (linkText type algo (digest.take (digestRoom type))) uriMax).1 =
      linkText type algo (digest.take (digestRoom type)) :=
  List.take_of_length_le
    (Nat.le_sub_one_of_lt (length_linkText_lt member algo (List.length_take_le _ _)))

/-- **The variant of a link** is the link of the bytes that its type has room for. -/
theorem hashUriVariant_eq (stack : Stack) {obj : HashUri} (known : obj.algo = some algo)
    (member : type ∈ digitLinkTypes) :
    hashUriVariant stack obj type uriMax =
      .ok (linkText type algo (obj.buf.take (digestRoom type))) := by
  obtain ⟨own, _, digest⟩ := obj
  obtain rfl := known
  have written := hashUriFormat_link stack member algo digest (show 0 < uriMax by decide)
  rw [hashUriVariant, written]
  exact congrArg Except.ok (snprintf_linkText member)

/-- The digests of two links of one type are the same when the texts are. -/
theorem linkText_inj (member : type ∈ digitLinkTypes) {other : List UInt8}
    (same : linkText type algo digest = linkText type algo other) : digest = other := by
  have first := hashUriParse_linkText (fun _ => 0) member algo digest
  rw [same, hashUriParse_linkText (fun _ => 0) member algo other] at first
  injections first
  symm
  assumption

end Formatted

/-! ## Normal forms -/

section Normal

variable {stack : Stack} {URI out : Str} {obj : HashUri} (parsed : hashUriParse stack URI = .ok obj)
include parsed

/-- **A link that is parsed has a normal form when its algorithm is known.** -/
theorem exists_hashUriNormalize_iff :
    (∃ out, hashUriNormalize stack URI uriMax = .ok out) ↔ obj.algo ≠ none := by
  rw [hashUriNormalize, parsed, Result.ok_bind]
  have type := type_of_hashUriParse parsed
  obtain ⟨own, algo, buf⟩ := obj
  cases algo with
  | none =>
      refine iff_of_false ?_ (fun known => known rfl)
      rintro ⟨out, formatted⟩
      cases formatted
  | some algo =>
      refine iff_of_true ?_ nofun
      rcases type with member | ⟨rfl, _, member, ⟨⟩, fits⟩
      · rw [hashUriFormat_link stack member algo buf (show 0 < uriMax by decide)]
        exact ⟨_, rfl⟩
      · obtain ⟨out, formatted⟩ := exists_hashUriFormat_multihash stack
          (multihashAlgoEncode_ne_zero member) (show 0 < uriMax by decide) fits
        rw [formatted]
        exact ⟨_, rfl⟩

/-- What the normal form of a link is, other than a multihash link. -/
theorem hashUriNormalize_eq {algo : HashAlgo} (known : obj.algo = some algo)
    (member : obj.type ∈ digitLinkTypes) :
    hashUriNormalize stack URI uriMax =
      .ok (linkText obj.type algo (obj.buf.take (digestRoom obj.type))) := by
  obtain ⟨type, _, digest⟩ := obj
  obtain rfl := known
  rw [hashUriNormalize, parsed, Result.ok_bind,
    hashUriFormat_link stack member algo digest (show 0 < uriMax by decide)]
  exact congrArg Except.ok (snprintf_linkText member)

/-- **A normal form is its own normal form**, and is read as the digest that it was made of, as
far as there was room. -/
theorem hashUriNormalize_idempotent (member : obj.type ∈ digitLinkTypes)
    (normalized : hashUriNormalize stack URI uriMax = .ok out) (other : Stack) :
    hashUriParse other out = .ok { obj with buf := obj.buf.take (digestRoom obj.type) } ∧
      hashUriNormalize other out uriMax = .ok out := by
  obtain ⟨algo, known⟩ := Option.ne_none_iff_exists'.mp
    ((exists_hashUriNormalize_iff parsed).mp ⟨out, normalized⟩)
  obtain rfl : linkText obj.type algo (obj.buf.take (digestRoom obj.type)) = out :=
    Except.ok.inj ((hashUriNormalize_eq parsed known member).symm.trans normalized)
  have read := hashUriParse_linkText other member algo (obj.buf.take (digestRoom obj.type))
  refine ⟨read.trans (by rw [known]), ?_⟩
  rw [hashUriNormalize_eq read rfl member, List.take_take, Nat.min_self]

end Normal

/-- A base-64 link with more bytes than there is room for. -/
theorem hashUriNormalize_idempotent_cut : ∃ out,
    out.length = 91 ∧ hashUriNormalize (fun _ => 0)
      (linkText .linkPrefix .sha512 (List.replicate 64 0)) uriMax = .ok out ∧
    hashUriNormalize (fun _ => 0xff) out uriMax = .ok out := by
  have parsed := hashUriParse_linkText (fun _ => 0) (show .linkPrefix ∈ digitLinkTypes by decide)
    .sha512 (List.replicate 64 0)
  have normalized := hashUriNormalize_eq parsed rfl (by decide)
  exact ⟨_, by decide, normalized,
    (hashUriNormalize_idempotent parsed (by decide) normalized (fun _ => 0xff)).2⟩

/-! ## Variants of variants -/

section Variants

variable {stack : Stack} {obj : HashUri} {algo : HashAlgo} {first second : HashUriType}

/-- A link that is changed twice has the bytes that both types have room for. -/
theorem variant_through (known : obj.algo = some algo) (inFirst : first ∈ digitLinkTypes)
    (inSecond : second ∈ digitLinkTypes) {between : Stack} {text : Str} {middle : HashUri}
    (written : hashUriVariant stack obj first uriMax = .ok text)
    (read : hashUriParse between text = .ok middle) :
    hashUriVariant stack middle second uriMax =
      .ok (linkText second algo (obj.buf.take (min (digestRoom second) (digestRoom first)))) := by
  rw [hashUriVariant_eq stack known inFirst] at written
  cases written
  rw [hashUriParse_linkText between inFirst] at read
  cases read
  rw [hashUriVariant_eq stack rfl inSecond, List.take_take]

/-- **Changing a link twice is changing it once**, exactly when the first type has room for the
digest, or for as much of it as the second. -/
theorem variant_through_iff (known : obj.algo = some algo) (inFirst : first ∈ digitLinkTypes)
    (inSecond : second ∈ digitLinkTypes) {between : Stack} {text : Str} {middle : HashUri}
    (written : hashUriVariant stack obj first uriMax = .ok text)
    (read : hashUriParse between text = .ok middle) :
    hashUriVariant stack middle second uriMax = hashUriVariant stack obj second uriMax ↔
      obj.buf.length ≤ digestRoom first ∨ digestRoom second ≤ digestRoom first := by
  rw [variant_through known inFirst inSecond written read, hashUriVariant_eq stack known inSecond]
  constructor
  · intro same
    have cut := congrArg List.length (linkText_inj inSecond (Except.ok.inj same))
    rw [List.length_take, List.length_take] at cut
    omega
  · intro room
    have cut : obj.buf.take (min (digestRoom second) (digestRoom first)) =
        obj.buf.take (digestRoom second) := by
      rw [List.take_eq_take_iff]
      omega
    rw [cut]

end Variants

/-- A SHA-512 digest loses a byte on its way through a named info link. -/
theorem variant_through_iff_sha512 : ∃ text middle,
    hashUriVariant (fun _ => 0) ⟨.linkMagnet, some .sha512, List.replicate 64 0⟩ .linkNamedInfo
      uriMax = .ok text ∧ hashUriParse (fun _ => 0) text = .ok middle ∧
    hashUriVariant (fun _ => 0) middle .linkHashUri uriMax ≠
      hashUriVariant (fun _ => 0) ⟨.linkMagnet, some .sha512, List.replicate 64 0⟩ .linkHashUri
        uriMax := by
  have written := hashUriVariant_eq (fun _ => 0)
    (show (⟨.linkMagnet, some .sha512, List.replicate 64 0⟩ : HashUri).algo = some .sha512 from rfl)
    (show .linkNamedInfo ∈ digitLinkTypes by decide)
  have read := hashUriParse_linkText (fun _ => 0) (show .linkNamedInfo ∈ digitLinkTypes by decide)
    .sha512 ((List.replicate 64 (0 : UInt8)).take (digestRoom .linkNamedInfo))
  refine ⟨_, _, written, read, fun same => ?_⟩
  have room := (variant_through_iff rfl (by decide) (by decide) written read).mp same
  revert room
  decide

end HashArchive.Hash
