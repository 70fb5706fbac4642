import HashArchive.Util.Base64
import HashArchive.Util.HashUriRoundTrip
import HashArchive.Util.Hex
import HashArchive.Util.Multihash

/-!
# The array bounds of `hash_uri_format`

Of the link types, only multihash copies the digest as it is: `memcpy` puts it
into an array with room for `HASH_DIGEST_MAX` bytes. `hashUriVariant_inBounds`
says that formatting a link object stays in bounds exactly when that copy is not
reached or the digest fits.

Five of the parsers give a digest of as many bytes as the text of the link holds,
and the expressions do not bound that text. The parser for multihash reads the
digest from an array of the same size, but it reads past the end of that array
when a long link begins with `1`; `hashUriParseBehind` is the parser on a stack
where such a read gives the bytes behind the array.

`inBounds_iff_of_accepted` states the condition on the link itself: the digest
fits when its text has at most 129 hexadecimal or 86 base-64 digits, or when the
room of the base-58 decoder and the leading `1`s are together no more than the array.
-/

set_option autoImplicit false

namespace HashArchive.Hash

/-- A call that leaves its defined behaviour nowhere. -/
def StaysInBounds {α : Type} (outcome : Result α) : Prop :=
  ∀ fault, outcome ≠ .error (.fault fault)

/-! ## Formatting -/

section Format

variable (stack : Stack) {algo : HashAlgo} {digest : List UInt8} {max : ℕ}

/-- The array of `hash_uri_format` for multihash once the two bytes before the
digest are written. -/
theorem hashUriFormat_multihash (digest : List UInt8) (coded : multihashAlgoEncode algo ≠ 0)
    (room : 0 < max) :
    ∃ tmp : List UInt8, tmp.length = 2 + hashDigestMax ∧
      hashUriFormat stack ⟨.linkMultihash, some algo, digest⟩ max = (do
        let tmp ← memcpy tmp 2 digest
        let bytes ← readCells tmp 0 (2 + digest.length)
        let (b58, _) ← b58Encode bytes ((2 + hashDigestMax) * 8 / 5 + 1 + 1)
        .ok (snprintf b58 max)) := by
  refine ⟨((stack.uninitialized (2 + hashDigestMax)).set 0 (multihashAlgoEncode algo)).set 1
    (UInt8.ofNat algo.digestLen), by simp, ?_⟩
  have first : 0 < (stack.uninitialized (2 + hashDigestMax)).length := by simp [hashDigestMax]
  have second : 1 < ((stack.uninitialized (2 + hashDigestMax)).set 0
      (multihashAlgoEncode algo)).length := by simp [hashDigestMax]
  simp only [hashUriFormat, assertThat, gt_iff_lt, if_pos room, Result.ok_bind, writeCell_of_lt first,
    if_neg (Ne.symm coded), writeCell_of_lt second]

/-- A digest of at most `HASH_DIGEST_MAX` bytes is copied and encoded. -/
theorem exists_hashUriFormat_multihash (coded : multihashAlgoEncode algo ≠ 0) (room : 0 < max)
    (fits : digest.length ≤ hashDigestMax) :
    ∃ out, hashUriFormat stack ⟨.linkMultihash, some algo, digest⟩ max = .ok out := by
  obtain ⟨tmp, size, formatted⟩ := hashUriFormat_multihash stack digest coded room
  obtain ⟨copy, copied⟩ : ∃ copy, memcpy tmp 2 digest = .ok copy :=
    ⟨_, memcpy_eq_ok.mpr ⟨by omega, rfl⟩⟩
  have whole : copy.length = tmp.length := length_of_memcpy copied
  have read : readCells copy 0 (2 + digest.length) = .ok (copy.take (2 + digest.length)) :=
    readCells_eq_ok.mpr ⟨by omega, rfl⟩
  have short : (copy.take (2 + digest.length)).length * 138 / 100 + 1 <
      (2 + hashDigestMax) * 8 / 5 + 1 + 1 := by
    have bound := List.length_take_le (2 + digest.length) copy
    simp only [hashDigestMax] at fits ⊢
    omega
  obtain ⟨text, length, encoded⟩ := Base58.exists_b58enc (copy.take (2 + digest.length)) short
  refine ⟨snprintf text max, ?_⟩
  rw [formatted, copied, Result.ok_bind, read, Result.ok_bind, b58Encode, encoded]
  rfl

/-- A longer digest is copied past the end of the array. -/
theorem hashUriFormat_multihash_overflow (coded : multihashAlgoEncode algo ≠ 0) (room : 0 < max)
    (long : hashDigestMax < digest.length) :
    hashUriFormat stack ⟨.linkMultihash, some algo, digest⟩ max = .error (.fault .outOfBounds) := by
  obtain ⟨tmp, size, formatted⟩ := hashUriFormat_multihash stack digest coded room
  rw [formatted, memcpy_overflow (by omega), Result.error_bind]

/-- **Formatting stays in bounds exactly when the multihash copy is not reached or
the digest fits its array.** -/
theorem hashUriVariant_inBounds {obj : HashUri} (known : obj.algo = some algo) (room : 0 < max)
    (type : HashUriType) :
    StaysInBounds (hashUriVariant stack obj type max) ↔
      type ≠ .linkMultihash ∨ multihashAlgoEncode algo = 0 ∨ obj.buf.length ≤ hashDigestMax := by
  obtain ⟨_, _, buf⟩ := obj
  obtain rfl := known
  by_cases digits : type ∈ digitLinkTypes
  · have different : type ≠ .linkMultihash := by
      rintro rfl
      exact absurd digits (by decide)
    simp [StaysInBounds, hashUriVariant, hashUriFormat_link stack digits algo buf room, different]
  by_cases multihash : type = .linkMultihash
  · subst multihash
    by_cases coded : multihashAlgoEncode algo = 0
    · have first : 0 < (stack.uninitialized (2 + hashDigestMax)).length := by simp [hashDigestMax]
      simp only [StaysInBounds, hashUriVariant, hashUriFormat, assertThat, gt_iff_lt, if_pos room,
        Result.ok_bind, coded, writeCell_of_lt first]
      simp
    · by_cases fits : buf.length ≤ hashDigestMax
      · obtain ⟨out, formatted⟩ := exists_hashUriFormat_multihash stack coded room fits
        simp [StaysInBounds, hashUriVariant, formatted, fits]
      · have overflow := hashUriFormat_multihash_overflow stack coded room (lt_of_not_ge fits)
        simp [StaysInBounds, hashUriVariant, overflow, coded, fits]
  · have unsupported : hashUriFormat stack ⟨type, some algo, buf⟩ max =
        .error (.code .hashEnotsup) := by
      cases type <;> first | exact absurd (by decide) digits | exact absurd rfl multihash |
        simp [hashUriFormat, assertThat, room]
    simp [StaysInBounds, hashUriVariant, unsupported, multihash]

end Format

/-! ## Parsing -/

/-- How many digits of a digest text its decoder reads. -/
def LinkForm.digits (form : LinkForm) (text : Str) : ℕ :=
  if form.type ∈ base64LinkTypes then b64Digits text text.length else text.length

/-- How many digits the text of a digest of `HASH_DIGEST_MAX` bytes can have. -/
def LinkForm.mostDigits (form : LinkForm) : ℕ :=
  if form.type ∈ base64LinkTypes then 86 else 129

/-- How many bytes the parser for multihash takes from its array: those it has room for, and
one for each leading `1`. -/
def multihashLen (URI : Str) : ℕ :=
  min (2 + hashDigestMax) (URI.length * 6 / 8) + (URI.takeWhile (· == '1')).length

/-- The digest text of a link, where one of the expressions finds it, is short
enough. -/
structure DigestFits (URI : Str) : Prop where
  digits : ∀ form ∈ linkForms, ∀ m, regexec form.regex URI = some m →
    form.digits (m.group form.digestGroup) ≤ form.mostDigits
  multihash : (regexec multihashRegex URI).isSome → multihashLen URI ≤ 2 + hashDigestMax

/-- A link names an algorithm that has a multihash code. A multihash link that is accepted
always does. -/
def NamesMultihashAlgo (URI : Str) : Prop :=
  (regexec multihashRegex URI).isSome ∨ ∃ form ∈ linkForms, ∃ m, regexec form.regex URI = some m ∧
    ∃ algo, hashAlgoParse (m.group form.algoGroup) = some algo ∧ multihashAlgoEncode algo ≠ 0

/-- **A digest fits exactly when its text does.** -/
theorem length_decoded_le_iff {form : LinkForm} (member : form ∈ linkForms) {URI : Str}
    {m : RegMatch} (way : m ∈ form.regex.parses URI) {buf : List UInt8}
    (decoded : form.decodeCopy (m.group form.digestGroup) = .ok buf) :
    buf.length ≤ hashDigestMax ↔ form.digits (m.group form.digestGroup) ≤ form.mostDigits := by
  have hex : ∀ {text : Str}, hexDecodeCopy text = .ok buf → nul ∉ text →
      (buf.length ≤ 64 ↔ text.length ≤ 129) := by
    intro text done terminated
    have size := length_of_hexDecode done (by simpa using terminated)
    omega
  have b64 : ∀ {text : Str}, b64DecodeCopy text = .ok buf →
      (buf.length ≤ 64 ↔ b64Digits text text.length ≤ 86) := by
    intro text done
    have size := length_of_b64Decode done
    have few : b64Digits text text.length ≤ text.length := by
      have prefixed := (List.takeWhile_prefix (!b64Term ·) : _ <+: text.take text.length).length_le
      simpa [b64Digits] using prefixed
    omega
  simp only [linkForms, List.mem_cons, List.not_mem_nil, or_false] at member
  rcases member with rfl | rfl | rfl | rfl | rfl
  · obtain ⟨_, _, digits, _, -, -, -, inDigits, -, -, group⟩ := hashUri_match way
    have terminated := not_mem_of_forall inDigits nul (by decide)
    exact hex decoded (group ▸ terminated)
  · exact b64 decoded
  · exact b64 decoded
  · obtain ⟨_, _, _, _, _, digits, -, -, -, -, -, inDigits, -, group⟩ := magnet_match way
    have terminated := not_mem_of_forall inDigits nul (by decide)
    exact hex decoded (group ▸ terminated)
  · exact b64 decoded

/-- A link is matched by one expression. -/
theorem eq_of_matches {first second : LinkForm} (inFirst : first ∈ linkForms)
    (inSecond : second ∈ linkForms) {URI : Str} {firstMatch secondMatch : RegMatch}
    (firstAnswer : regexec first.regex URI = some firstMatch)
    (secondAnswer : regexec second.regex URI = some secondMatch) :
    first = second ∧ firstMatch = secondMatch := by
  have firstForm := formOf_of_mem_parses inFirst (regexec_eq_some firstAnswer).1
  have secondForm := formOf_of_mem_parses inSecond (regexec_eq_some secondAnswer).1
  rw [firstForm, Option.some_inj] at secondForm
  obtain rfl := linkForm_eq_of_type_eq inFirst inSecond secondForm
  rw [firstAnswer, Option.some_inj] at secondAnswer
  exact ⟨rfl, secondAnswer⟩

/-- What is decoded goes to the front of the array. -/
theorem length_of_b58Decode {str : Str} {out tmp : List UInt8} {len : ℕ}
    (decoded : b58Decode str out = .ok (tmp, len)) : tmp.length = out.length := by
  obtain ⟨_ | ⟨bin, x⟩, -, decoded⟩ := Result.bind_eq_ok.mp decoded
  · cases decoded
  · obtain ⟨copy, copied, decoded⟩ := Result.bind_eq_ok.mp decoded
    cases decoded
    exact length_of_memcpy copied

/-- The digest of a multihash link was read from an array of its size. -/
theorem hashUriParseMultihash_fits {stack : Stack} {URI : Str} {obj : HashUri}
    (accepted : hashUriParseMultihash stack URI = .ok obj) :
    formOf URI = some .linkMultihash ∧ obj.buf.length ≤ hashDigestMax := by
  unfold hashUriParseMultihash at accepted
  cases answer : regexec multihashRegex URI with
  | none => simp [answer] at accepted
  | some m =>
      refine ⟨formOf_of_mem_parses_multihash (regexec_eq_some answer).1, ?_⟩
      rw [answer] at accepted
      obtain ⟨⟨tmp, len⟩, decoded, accepted⟩ := Result.bind_eq_ok.mp accepted
      have size := length_of_b58Decode decoded
      rw [Stack.length_uninitialized] at size
      by_cases short : len < 2
      · simp only [if_pos short] at accepted
        cases accepted
      · simp only [if_neg short] at accepted
        obtain ⟨algo, -, accepted⟩ := Result.bind_eq_ok.mp accepted
        obtain ⟨buf, read, accepted⟩ := Result.bind_eq_ok.mp accepted
        cases accepted
        obtain ⟨inBounds, rfl⟩ := readCells_eq_ok.mp read
        simp only [List.length_take, List.length_drop]
        omega

/-! ### Reading past the end of the array -/

/-- `hash_uri_parse_multihash` where a read past the end of `tmp` gives the bytes behind it. -/
def hashUriParseMultihashBehind (stack behind : Stack) (URI : Str) : Result HashUri :=
  match regexec multihashRegex URI with
  | none => .error (.code .hashEparse)
  | some m => do
    let (tmp, len) ← b58Decode m.text (stack.uninitialized (2 + hashDigestMax))
    if len < 2 then .error (.code .hashEparse) else
    let algo ← multihashAlgoDecode tmp.head?
    let buf ← readCells (tmp ++ behind.uninitialized len) 2 (len - 2)
    .ok { type := .linkMultihash, algo := some algo, buf := buf }

/-- `hash_uri_parse` where a read past the end of `tmp` gives the bytes behind it. -/
def hashUriParseBehind (stack behind : Stack) (URI : Str) : Result HashUri :=
  match hashUriParse stack URI with
  | .error (.fault _) => hashUriParseMultihashBehind stack behind URI
  | outcome => outcome

/-- The other five parsers read nothing that is not there. -/
theorem hashUriParseForm_ne_fault {form : LinkForm} (member : form ∈ linkForms) (URI : Str)
    (fault : Fault) : hashUriParseForm form URI ≠ .error (.fault fault) := by
  have hex (text : Str) : hexDecodeCopy text ≠ .error (.fault fault) := by
    intro failed
    cases ((hexDecode_eq_error_iff (endsWithin_self text)).mp failed).1
  have b64 (text : Str) : b64DecodeCopy text ≠ .error (.fault fault) :=
    (b64Decode_eq_run (.inl (Nat.le_refl _))).2 fault
  have decodes (text : Str) : form.decodeCopy text ≠ .error (.fault fault) := by
    simp only [linkForms, List.mem_cons, List.not_mem_nil, or_false] at member
    rcases member with rfl | rfl | rfl | rfl | rfl
    · exact hex text
    · exact b64 text
    · exact b64 text
    · exact hex text
    · exact b64 text
  unfold hashUriParseForm
  intro failed
  cases answer : regexec form.regex URI with
  | none =>
      rw [answer] at failed
      cases failed
  | some m =>
      rw [answer] at failed
      rcases Result.bind_eq_error.mp failed with here | ⟨_, _, done⟩
      · exact decodes _ here
      · cases done

theorem orParse_eq_fault {rc next : Result HashUri} {fault : Fault} :
    orParse rc next = .error (.fault fault) ↔
      rc = .error (.fault fault) ∨ (∃ code, rc = .error (.code code)) ∧
        next = .error (.fault fault) := by
  rcases rc with (code | other) | parsed <;> simp [orParse]

/-- Only the parser for multihash can fault. -/
theorem fault_of_hashUriParse {stack : Stack} {URI : Str} {fault : Fault}
    (faulted : hashUriParse stack URI = .error (.fault fault)) :
    hashUriParseMultihash stack URI = .error (.fault fault) := by
  have others := fun form member => @hashUriParseForm_ne_fault form member URI fault
  simp only [linkForms, List.mem_cons, List.not_mem_nil, or_false, forall_eq_or_imp,
    forall_eq] at others
  obtain ⟨notHash, notNamed, notSsb, notMagnet, notPrefix⟩ := others
  simp only [hashUriParse, orParse_eq_fault, reduceCtorEq, Except.error.injEq,
    false_or] at faulted
  rcases faulted with ((((⟨-, here⟩ | ⟨-, here⟩) | ⟨-, here⟩) | ⟨-, here⟩) | ⟨-, here⟩) |
    ⟨-, here⟩
  · exact absurd here notHash
  · exact absurd here notNamed
  · exact absurd here notSsb
  · exact absurd here notMagnet
  · exact absurd here notPrefix
  · exact here

/-- **What the parser for multihash gives** for a link that it accepts: a known algorithm and
as many bytes as it takes from the array and from behind it. -/
theorem Accepted.parsedBehind {stack : Stack} {URI : Str} (accepted : Accepted stack URI)
    (behind : Stack) : (regexec multihashRegex URI).isSome ∧ ∃ algo buf,
      hashUriParseMultihashBehind stack behind URI = .ok ⟨.linkMultihash, some algo, buf⟩ ∧
      multihashAlgoEncode algo ≠ 0 ∧ 2 + buf.length = multihashLen URI := by
  obtain ⟨m, bin, size, algo, matched, decoded, enough, known⟩ := accepted.decoded
  obtain ⟨whole, long⟩ := regexec_multihash matched
  obtain ⟨written, reported⟩ := Base58.b58tobin_eq_some decoded
  rw [takeWhile_zero_of_algo known, List.length_nil, Nat.sub_zero] at reported
  have coded : multihashAlgoEncode algo ≠ 0 := by
    unfold multihashAlgoDecode at known
    split at known <;> cases known <;> decide
  -- The array is longer than what is read of it.
  obtain ⟨tmp, copied, first⟩ : ∃ tmp, memcpy (stack.uninitialized (2 + hashDigestMax)) 0 bin =
      .ok tmp ∧ tmp.head? = bin.head? := by
    refine ⟨_, memcpy_eq_ok.mpr ⟨?_, rfl⟩, ?_⟩
    · rw [Stack.length_uninitialized]
      omega
    · rw [List.take_zero, List.nil_append, List.head?_append_of_ne_nil]
      rw [← List.length_pos_iff, written, hashDigestMax]
      omega
  have read : readCells (tmp ++ behind.uninitialized size) 2 (size - 2) =
      .ok (((tmp ++ behind.uninitialized size).drop 2).take (size - 2)) := by
    refine readCells_eq_ok.mpr ⟨?_, rfl⟩
    rw [List.length_append, Stack.length_uninitialized]
    omega
  refine ⟨Option.isSome_of_eq_some matched, algo,
    ((tmp ++ behind.uninitialized size).drop 2).take (size - 2), ?_, coded, ?_⟩
  · simp only [hashUriParseMultihashBehind, matched, whole, b58Decode, Stack.length_uninitialized,
      decoded, Result.ok_bind, copied, first, known]
    rw [if_neg (by omega), read]
    rfl
  · rw [List.length_take, List.length_drop, List.length_append, Stack.length_uninitialized,
      multihashLen]
    omega

/-- Where the parser for multihash stays in its array, what is behind does not matter. -/
theorem hashUriParseMultihashBehind_of_ok {stack : Stack} {URI : Str} {obj : HashUri}
    (parsed : hashUriParseMultihash stack URI = .ok obj) (behind : Stack) :
    hashUriParseMultihashBehind stack behind URI = .ok obj := by
  unfold hashUriParseMultihash at parsed
  unfold hashUriParseMultihashBehind
  cases answer : regexec multihashRegex URI with
  | none => simp [answer] at parsed
  | some m =>
      rw [answer] at parsed
      obtain ⟨⟨tmp, len⟩, decoded, parsed⟩ := Result.bind_eq_ok.mp parsed
      simp only [decoded, Result.ok_bind]
      by_cases short : len < 2
      · simp only [if_pos short] at parsed
        cases parsed
      · simp only [if_neg short] at parsed ⊢
        obtain ⟨algo, known, parsed⟩ := Result.bind_eq_ok.mp parsed
        obtain ⟨buf, read, parsed⟩ := Result.bind_eq_ok.mp parsed
        obtain ⟨inBounds, rfl⟩ := readCells_eq_ok.mp read
        have same : readCells (tmp ++ behind.uninitialized len) 2 (len - 2) =
            .ok ((tmp.drop 2).take (len - 2)) := by
          refine readCells_eq_ok.mpr ⟨by rw [List.length_append]; omega, ?_⟩
          rw [List.drop_append_of_le_length (by omega), List.take_append_of_le_length (by
            rw [List.length_drop]
            omega)]
        rw [known, Result.ok_bind, same]
        exact parsed

/-- **A link that is accepted** is parsed by one of the parsers, as it would be with any bytes
behind the array. -/
theorem parsedBehind_of_accepted {stack : Stack} {URI : Str}
    (accepted : ∀ rc, hashUriParse stack URI ≠ .error (.code rc)) (behind : Stack) :
    (∃ obj, hashUriParseBehind stack behind URI = .ok obj ∧
      ∃ form ∈ linkForms, hashUriParseForm form URI = .ok obj) ∨
    (hashUriParseBehind stack behind URI = hashUriParseMultihashBehind stack behind URI ∧
      Accepted stack URI) := by
  unfold hashUriParseBehind
  cases outcome : hashUriParse stack URI with
  | ok obj =>
      rcases parser_of_hashUriParse outcome with parsed | parsed
      · exact .inl ⟨obj, rfl, parsed⟩
      · refine .inr ⟨(hashUriParseMultihashBehind_of_ok parsed behind).symm, fun rc refused => ?_⟩
        cases parsed.symm.trans refused
  | error failure =>
      cases failure with
      | code rc => exact absurd outcome (accepted rc)
      | fault fault =>
          refine .inr ⟨rfl, fun rc refused => ?_⟩
          cases (fault_of_hashUriParse outcome).symm.trans refused

/-! ## Formatting what was parsed -/

/-- **Formatting an accepted link stays in bounds exactly when the target is not
multihash, the algorithm has no multihash code, or the digest text of the link is
short enough.** A link is accepted when it is not refused with an error. -/
theorem inBounds_iff_of_accepted {stack : Stack} {URI : Str}
    (accepted : ∀ rc, hashUriParse stack URI ≠ .error (.code rc)) (behind formatStack : Stack) :
    ∃ obj, hashUriParseBehind stack behind URI = .ok obj ∧
      ∀ algo, obj.algo = some algo → ∀ type max, 0 < max →
        (StaysInBounds (hashUriVariant formatStack obj type max) ↔
          type ≠ .linkMultihash ∨ ¬ NamesMultihashAlgo URI ∨ DigestFits URI) := by
  rcases parsedBehind_of_accepted accepted behind with
    ⟨obj, parsed, form, member, taken⟩ | ⟨same, accepted⟩
  · obtain ⟨m, buf, answer, decoded, rfl⟩ := hashUriParseForm_eq_ok.mp taken
    refine ⟨_, parsed, fun algo known type max room => ?_⟩
    rw [hashUriVariant_inBounds formatStack known room type]
    apply or_congr_right
    have shape := formOf_of_mem_parses member (regexec_eq_some answer).1
    have noMultihash : ¬ (regexec multihashRegex URI).isSome := by
      intro matched
      obtain ⟨other, answer⟩ := Option.isSome_iff_exists.mp matched
      rw [formOf_of_mem_parses_multihash (regexec_eq_some answer).1, Option.some_inj] at shape
      exact linkForm_type_ne_multihash member shape.symm
    have named : NamesMultihashAlgo URI ↔ multihashAlgoEncode algo ≠ 0 := by
      rw [NamesMultihashAlgo, or_iff_right noMultihash]
      constructor
      · rintro ⟨other, inForms, otherMatch, otherAnswer, otherAlgo, sameAlgo, coded⟩
        obtain ⟨rfl, rfl⟩ := eq_of_matches inForms member otherAnswer answer
        have same : some algo = some otherAlgo := known.symm.trans sameAlgo
        rwa [Option.some_inj.mp same]
      · exact fun coded => ⟨form, member, m, answer, algo, known, coded⟩
    have fits : DigestFits URI ↔ buf.length ≤ hashDigestMax := by
      rw [length_decoded_le_iff member (regexec_eq_some answer).1 decoded]
      constructor
      · exact fun short => short.digits form member m answer
      · refine fun short => ⟨fun other inForms otherMatch otherAnswer => ?_,
          fun matched => absurd matched noMultihash⟩
        obtain ⟨rfl, rfl⟩ := eq_of_matches inForms member otherAnswer answer
        exact short
    rw [named, fits, not_not]
  · obtain ⟨matched, algo, buf, parsed, coded, size⟩ := accepted.parsedBehind behind
    refine ⟨_, same.trans parsed, fun other known type max room => ?_⟩
    obtain rfl := Option.some_inj.mp known
    rw [hashUriVariant_inBounds formatStack rfl room type]
    apply or_congr_right
    obtain ⟨m, answer⟩ := Option.isSome_iff_exists.mp matched
    have shape := formOf_of_mem_parses_multihash (regexec_eq_some answer).1
    have noForm : ∀ form ∈ linkForms, ∀ m, regexec form.regex URI ≠ some m := by
      intro form member m answer
      have other := formOf_of_mem_parses member (regexec_eq_some answer).1
      rw [shape, Option.some_inj] at other
      exact linkForm_type_ne_multihash member other.symm
    have fits : DigestFits URI ↔ buf.length ≤ hashDigestMax := by
      constructor
      · intro short
        have atMost := short.multihash matched
        omega
      · refine fun short => ⟨fun form member m answer => absurd answer (noForm form member m),
          fun _ => ?_⟩
        omega
    rw [fits]
    exact or_congr_left (iff_of_false coded (not_not_intro (.inl matched)))

/-- A `1` before the base-58 number of 66 bytes: the parser takes 67 bytes of its array. -/
theorem inBounds_iff_of_accepted_ones : ∃ URI : Str, URI = '1' :: '8' :: List.replicate 89 '2' ∧
    hashUriParse (fun _ => 0) URI = .error (.fault .outOfBounds) ∧
    ∃ obj, hashUriParseBehind (fun _ => 0) (fun _ => 7) URI = .ok obj ∧ ∀ algo,
      obj.algo = some algo →
        ¬ StaysInBounds (hashUriVariant (fun _ => 0) obj .linkMultihash uriMax) := by
  have computed : hashUriParse (fun _ => 0) ('1' :: '8' :: List.replicate 89 '2') =
      .error (.fault .outOfBounds) ∧
      (regexec multihashRegex ('1' :: '8' :: List.replicate 89 '2')).isSome = true := by
    decide +kernel
  obtain ⟨faulted, matched⟩ := computed
  obtain ⟨obj, parsed, inBounds⟩ := inBounds_iff_of_accepted (fun rc refused => by
    cases faulted.symm.trans refused) (fun _ => 7) (fun _ => 0)
  refine ⟨_, rfl, faulted, obj, parsed, fun algo known stays => ?_⟩
  rcases (inBounds algo known .linkMultihash uriMax (by decide)).mp stays with other | unnamed | fits
  · exact other rfl
  · exact unnamed (.inl matched)
  · have most := fits.multihash matched
    revert most
    decide

/-- A hash URI with 130 hexadecimal digits overruns the array. -/
theorem sha256_hashUri_overflow :
    ∃ obj, hashUriParse (fun _ => 0) ("hash://sha256/".toList ++ List.replicate 130 '0') = .ok obj ∧
      obj.algo = some .sha256 ∧
      hashUriVariant (fun _ => 0) obj .linkMultihash uriMax = .error (.fault .outOfBounds) := by
  have text : "hash://sha256/".toList ++ List.replicate 130 '0' =
      linkText .linkHashUri .sha256 (List.replicate 65 0) := by decide +kernel
  refine ⟨⟨.linkHashUri, some .sha256, List.replicate 65 0⟩, ?_, rfl, ?_⟩
  · rw [text, hashUriParse_linkText (fun _ => 0) (by decide)]
  · rw [hashUriVariant, hashUriFormat_multihash_overflow _ (by decide) (by decide) (by decide)]
    rfl

end HashArchive.Hash
