import HashArchive.Deps.Base58RoundTrip
import HashArchive.Util.Multihash

/-!
# Multihash links of whole digests

A multihash link is the base-58 number of a code for the algorithm, the length of its
digests and the digest. `b58_decode` guesses how many bytes it stands for as six bits a
character. The first two bytes of a whole digest fix the number of its base-58 digits
(`length_eq_of_wholeDigest`), and for all three algorithms the guess is right
(`multihash_roundTrips`).
-/

set_option autoImplicit false

namespace HashArchive.Hash

/-- The algorithms that have a code. -/
def multihashAlgos : List HashAlgo := [.sha1, .sha256, .sha512]

/-- What a multihash link is the number of. -/
def multihashBytes (algo : HashAlgo) (digest : List UInt8) : List UInt8 :=
  multihashAlgoEncode algo :: UInt8.ofNat algo.digestLen :: digest

/-- What is encoded, whatever was in the array before. -/
theorem hashUriFormat_multihash_eq (stack : Stack) {algo : HashAlgo}
    (coded : multihashAlgoEncode algo ≠ 0) {digest : List UInt8} {max : ℕ} (room : 0 < max)
    (fits : digest.length ≤ hashDigestMax) :
    hashUriFormat stack ⟨.linkMultihash, some algo, digest⟩ max = (do
      let (b58, _) ← b58Encode (multihashBytes algo digest) ((2 + hashDigestMax) * 8 / 5 + 1 + 1)
      .ok (snprintf b58 max)) := by
  have length := stack.length_uninitialized (2 + hashDigestMax)
  have written (first second : UInt8) (cells : List UInt8)
      (array : stack.uninitialized (2 + hashDigestMax) = first :: second :: cells) :
      hashUriFormat stack ⟨.linkMultihash, some algo, digest⟩ max = (do
        let (b58, _) ← b58Encode (multihashBytes algo digest) ((2 + hashDigestMax) * 8 / 5 + 1 + 1)
        .ok (snprintf b58 max)) := by
    have size : digest.length ≤ cells.length := by
      rw [array, List.length_cons, List.length_cons] at length
      omega
    have copied : memcpy (multihashAlgoEncode algo :: UInt8.ofNat algo.digestLen :: cells) 2 digest =
        .ok (multihashBytes algo digest ++ cells.drop digest.length) := by
      refine memcpy_eq_ok.mpr ⟨?_, ?_⟩
      · rw [List.length_cons, List.length_cons]
        omega
      · rw [Nat.add_comm 2]
        rfl
    have read : readCells (multihashBytes algo digest ++ cells.drop digest.length) 0
        (2 + digest.length) = .ok (multihashBytes algo digest) := by
      refine readCells_eq_ok.mpr ⟨?_, ?_⟩
      · rw [List.length_append, multihashBytes, List.length_cons, List.length_cons]
        omega
      · rw [List.drop_zero, List.take_left' (by
          rw [multihashBytes, List.length_cons, List.length_cons]
          omega)]
    simp only [hashUriFormat, assertThat, gt_iff_lt, if_pos room, Result.ok_bind, array,
      writeCell_cons_zero, writeCell_cons_succ, if_neg (Ne.symm coded), copied, read]
  rcases array : stack.uninitialized (2 + hashDigestMax) with _ | ⟨first, _ | ⟨second, cells⟩⟩
  · rw [array] at length
    cases length
  · rw [array] at length
    cases length
  · exact written first second cells array

/-- **How many characters a link has** that stands for a whole digest. -/
theorem length_eq_of_wholeDigest {algo : HashAlgo} (member : algo ∈ multihashAlgos)
    {digest : List UInt8} (whole : digest.length = algo.digestLen) {digits : List ℕ}
    (small : Base58.AreDigits digits) (first : ∀ digit ∈ digits.head?, digit ≠ 0)
    (value : Base58.b58Value digits = bigEndian (multihashBytes algo digest)) :
    8 ≤ digits.length ∧ min (2 + hashDigestMax) (digits.length * 6 / 8) = 2 + digest.length := by
  have number : bigEndian (multihashBytes algo digest) =
      ((multihashAlgoEncode algo).toNat * 256 + (UInt8.ofNat algo.digestLen).toNat) *
        256 ^ digest.length + bigEndian digest := by
    have two (code length : UInt8) : bigEndian [code, length] = code.toNat * 256 + length.toNat := by
      rw [bigEndian, List.foldl_cons, List.foldl_cons, List.foldl_nil, Nat.zero_mul, Nat.zero_add]
    rw [← two]
    exact bigEndian_append [multihashAlgoEncode algo, UInt8.ofNat algo.digestLen] digest
  have counted {count : ℕ} := @Base58.length_eq_of_code _ small first _ _ (value.trans number) count
  simp only [multihashAlgos, List.mem_cons, List.not_mem_nil, or_false] at member
  rw [whole] at counted ⊢
  rcases member with rfl | rfl | rfl
  · have length := @counted 29 (by decide) (by decide)
    rw [length]
    decide
  · have length := @counted 45 (by decide) (by decide)
    rw [length]
    decide
  · have length := @counted 89 (by decide) (by decide)
    rw [length]
    decide

/-! ## The link -/

theorem digitChar_mem : ∀ digit < 58, Base58.digitChar digit ∈ Base58.b58digitsOrdered := by decide

/-- A text of eight digits or more is matched. -/
theorem regexec_of_digits {digits : List ℕ} (small : Base58.AreDigits digits)
    (enough : 8 ≤ digits.length) :
    ∃ m, regexec multihashRegex (digits.map Base58.digitChar) = some m := by
  have inside : ∀ c ∈ digits.map Base58.digitChar, decide (c ∈ Base58.b58digitsOrdered) = true := by
    intro c member
    obtain ⟨digit, inDigits, rfl⟩ := List.mem_map.mp member
    exact decide_eq_true (digitChar_mem digit (small digit inDigits))
  have takes : multihashRegex.Takes (digits.map Base58.digitChar ++ []) [] :=
    (Regex.Takes.repeated inside (by rwa [List.length_map]) (by simp)).seq Regex.Takes.atEnd
  rw [List.append_nil] at takes
  obtain ⟨m, answer, -⟩ := takes.regexec_eq
  exact ⟨m, answer⟩

/-- No other parser takes a multihash link. -/
theorem hashUriParse_of_multihash {stack : Stack} {URI : Str} {m : RegMatch}
    (matched : regexec multihashRegex URI = some m) {obj : HashUri}
    (accepted : hashUriParseMultihash stack URI = .ok obj) : hashUriParse stack URI = .ok obj := by
  have shape := formOf_of_mem_parses_multihash (regexec_eq_some matched).1
  have others : ∀ form ∈ linkForms, hashUriParseForm form URI = .error (.code .hashEparse) := by
    intro form member
    apply hashUriParseForm_of_formOf_ne member
    intro same
    rw [shape] at same
    exact linkForm_type_ne_multihash member (Option.some.inj same).symm
  simp only [linkForms, List.forall_mem_cons] at others
  obtain ⟨notHash, notNamed, notSsb, notMagnet, notPrefix, -⟩ := others
  simp [hashUriParse, hashUriParseHashUri, hashUriParseNamedInfo, hashUriParseSsb,
    hashUriParseMagnet, hashUriParsePrefix, notHash, notNamed, notSsb, notMagnet, notPrefix, accepted]

theorem multihashAlgoDecode_encode {algo : HashAlgo} (member : algo ∈ multihashAlgos) :
    multihashAlgoDecode (some (multihashAlgoEncode algo)) = .ok algo := by
  simp only [multihashAlgos, List.mem_cons, List.not_mem_nil, or_false] at member
  rcases member with rfl | rfl | rfl <;> rfl

theorem multihashAlgoEncode_ne_zero {algo : HashAlgo} (member : algo ∈ multihashAlgos) :
    multihashAlgoEncode algo ≠ 0 := by
  simp only [multihashAlgos, List.mem_cons, List.not_mem_nil, or_false] at member
  rcases member with rfl | rfl | rfl <;> decide

/-- **Whole digests survive a multihash link**, and the decoder is given room for exactly the
bytes that were encoded. -/
theorem multihash_roundTrips {algo : HashAlgo} (member : algo ∈ multihashAlgos)
    {digest : List UInt8} (whole : digest.length = algo.digestLen)
    (formatStack parseStack : Stack) :
    ∃ text,
      (∀ max, text.length < max →
        hashUriFormat formatStack ⟨.linkMultihash, some algo, digest⟩ max =
          .ok (text, text.length)) ∧
      hashUriParse parseStack text = .ok ⟨.linkMultihash, some algo, digest⟩ ∧
      min (2 + hashDigestMax) (text.length * 6 / 8) = (multihashBytes algo digest).length ∧
      Base58.b58tobin (min (2 + hashDigestMax) (text.length * 6 / 8)) text =
        .ok (some (multihashBytes algo digest, (multihashBytes algo digest).length)) := by
  have coded := multihashAlgoEncode_ne_zero member
  have size : (multihashBytes algo digest).length = 2 + digest.length := by
    rw [multihashBytes, List.length_cons, List.length_cons]
    omega
  have nonempty : multihashBytes algo digest ≠ [] := List.cons_ne_nil _ _
  have fits : digest.length ≤ hashDigestMax := whole ▸ algo.digestLen_le
  have noZero : (multihashBytes algo digest).takeWhile (· == 0) = [] :=
    List.takeWhile_cons_of_neg (by simpa using coded)
  have room : (multihashBytes algo digest).length * 138 / 100 + 1 <
      (2 + hashDigestMax) * 8 / 5 + 1 + 1 := by
    rw [size]
    simp only [hashDigestMax] at fits ⊢
    omega
  obtain ⟨digits, small, first, value, encoded, decoded⟩ :=
    Base58.b58tobin_of_b58enc nonempty noZero room
  obtain ⟨enough, guess⟩ := length_eq_of_wholeDigest member whole small first value
  rw [← size] at guess
  have capacity : min (2 + hashDigestMax) ((digits.map Base58.digitChar).length * 6 / 8) =
      (multihashBytes algo digest).length := by
    rwa [List.length_map]
  refine ⟨digits.map Base58.digitChar, ?_, ?_, capacity, by rw [capacity, decoded]⟩
  · intro max fitsOut
    rw [hashUriFormat_multihash_eq formatStack coded (Nat.zero_lt_of_lt fitsOut) fits, b58Encode,
      encoded]
    exact congrArg Except.ok (Prod.ext (List.take_of_length_le (Nat.le_sub_one_of_lt fitsOut)) rfl)
  · obtain ⟨m, matched⟩ := regexec_of_digits small enough
    apply hashUriParse_of_multihash matched
    rw [hashUriParseMultihash_of_decoded matched (by rw [capacity, decoded]) parseStack,
      if_neg (by omega)]
    have known : multihashAlgoDecode (multihashBytes algo digest).head? = .ok algo :=
      multihashAlgoDecode_encode member
    have read (rest : List UInt8) : readCells (multihashBytes algo digest ++ rest) 2
        ((multihashBytes algo digest).length - 2) = .ok digest := by
      refine readCells_eq_ok.mpr ⟨?_, ?_⟩
      · rw [List.length_append]
        omega
      · rw [size, Nat.add_sub_cancel_left]
        exact List.take_left.symm
    rw [known, Result.ok_bind, read, Result.ok_bind]

/-- A digest of zeros, after whatever the stack held. -/
theorem multihash_roundTrips_zeros : ∃ text,
    (∀ max, text.length < max → hashUriFormat (fun _ => 0xff)
      ⟨.linkMultihash, some .sha1, List.replicate 20 0⟩ max = .ok (text, text.length)) ∧
    hashUriParse (fun _ => 0xff) text = .ok ⟨.linkMultihash, some .sha1, List.replicate 20 0⟩ := by
  obtain ⟨text, formatted, parsed, -⟩ :=
    @multihash_roundTrips .sha1 (by decide) (List.replicate 20 0) rfl (fun _ => 0xff) (fun _ => 0xff)
  exact ⟨text, formatted, parsed⟩

end HashArchive.Hash
