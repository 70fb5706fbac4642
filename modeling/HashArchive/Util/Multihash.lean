import HashArchive.Util.HashUri

/-!
# Multihash links

`hash_uri_parse_multihash` decodes a link into an array on the stack and takes as many
bytes of it as the decoder reports. The decoder is given room for six bits a character;
it fills that room, and reports one byte more for every leading `1`.

`returnsDecoded_iff` says when the link is decoded without reading a byte that was not
written: exactly when it does not begin with `1`.
-/

set_option autoImplicit false

namespace HashArchive.Hash

/-- **Only decoded bytes are returned.** The decoder reports no more bytes than it has
written, and the digest is what it has written after the first two bytes, whatever was on
the stack before. -/
def ReturnsDecoded (URI : Str) : Prop :=
  ∃ bin size obj,
    Base58.b58tobin (min (2 + hashDigestMax) (URI.length * 6 / 8)) URI = .ok (some (bin, size)) ∧
    size ≤ bin.length ∧ (∀ stack, hashUriParseMultihash stack URI = .ok obj) ∧
    obj.buf = (bin.take size).drop 2 ∧ obj.buf.length ≤ hashDigestMax

/-- A link that is matched is matched as a whole, and has at least eight characters. -/
theorem regexec_multihash {URI : Str} {m : RegMatch} (matched : regexec multihashRegex URI = some m) :
    m.text = URI ∧ 8 ≤ URI.length := by
  have way := (regexec_eq_some matched).1
  have whole := Regex.append_of_mem_parses way
  simp [multihashRegex] at way
  obtain ⟨⟨-, long⟩, rfl⟩ := way
  exact ⟨rfl, long⟩

/-- The first byte of a hash that is known is not zero. -/
theorem takeWhile_zero_of_algo {bin : List UInt8} {algo : HashAlgo}
    (known : multihashAlgoDecode bin.head? = .ok algo) : bin.takeWhile (· == 0) = [] := by
  cases bin with
  | nil => rfl
  | cons byte bin =>
      have nonzero : (byte == 0) = false := by
        by_contra zero
        rw [Bool.not_eq_false, beq_iff_eq] at zero
        subst zero
        cases known
      rw [List.takeWhile_cons, nonzero]
      rfl

theorem multihashAlgoDecode_error {byte : Option UInt8} {failure : Failure}
    (unknown : multihashAlgoDecode byte = .error failure) : failure = .code .hashEparse := by
  unfold multihashAlgoDecode at unknown
  split at unknown <;> cases unknown
  rfl

theorem length_takeWhile_ones_eq_zero_iff {URI : Str} :
    (URI.takeWhile (· == '1')).length = 0 ↔ URI.head? ≠ some '1' := by
  cases URI with
  | nil => simp
  | cons first URI =>
      by_cases one : first = '1'
      · simp [one]
      · simp [one]

/-- **What the parser makes of a link that is decoded.** -/
theorem hashUriParseMultihash_of_decoded {URI : Str} {m : RegMatch}
    (matched : regexec multihashRegex URI = some m) {bin : List UInt8} {size : ℕ}
    (decoded : Base58.b58tobin (min (2 + hashDigestMax) (URI.length * 6 / 8)) URI =
      .ok (some (bin, size))) (stack : Stack) :
    hashUriParseMultihash stack URI =
      if size < 2 then .error (.code .hashEparse)
      else (do
        let algo ← multihashAlgoDecode bin.head?
        let buf ← readCells (bin ++ (stack.uninitialized (2 + hashDigestMax)).drop bin.length) 2
          (size - 2)
        .ok { type := .linkMultihash, algo := some algo, buf := buf }) := by
  obtain ⟨whole, long⟩ := regexec_multihash matched
  have written := (Base58.b58tobin_eq_some decoded).1
  have copied : memcpy (stack.uninitialized (2 + hashDigestMax)) 0 bin =
      .ok (bin ++ (stack.uninitialized (2 + hashDigestMax)).drop bin.length) := by
    refine memcpy_eq_ok.mpr ⟨?_, by simp⟩
    rw [Stack.length_uninitialized]
    omega
  have first : (bin ++ (stack.uninitialized (2 + hashDigestMax)).drop bin.length).head? =
      bin.head? := by
    refine List.head?_append_of_ne_nil _ ?_
    rw [← List.length_pos_iff, written, hashDigestMax]
    omega
  simp only [hashUriParseMultihash, matched, whole, b58Decode, Stack.length_uninitialized, decoded,
    Result.ok_bind, copied, first]

/-- A link is accepted when it is not refused with an error. The parser may then still read
past the end of its array. -/
def Accepted (stack : Stack) (URI : Str) : Prop :=
  ∀ rc, hashUriParseMultihash stack URI ≠ .error (.code rc)

/-- **What acceptance says of a link.** -/
theorem Accepted.decoded {stack : Stack} {URI : Str} (accepted : Accepted stack URI) :
    ∃ m bin size algo, regexec multihashRegex URI = some m ∧
      Base58.b58tobin (min (2 + hashDigestMax) (URI.length * 6 / 8)) URI = .ok (some (bin, size)) ∧
      2 ≤ size ∧ multihashAlgoDecode bin.head? = .ok algo := by
  cases matched : regexec multihashRegex URI with
  | none =>
      refine absurd ?_ (accepted .hashEparse)
      simp only [hashUriParseMultihash, matched]
  | some m =>
      obtain ⟨whole, long⟩ := regexec_multihash matched
      have room : 0 < min (2 + hashDigestMax) (URI.length * 6 / 8) := by
        rw [hashDigestMax]
        omega
      obtain ⟨outcome, ended⟩ := Base58.exists_b58tobin URI room
      cases outcome with
      | none =>
          refine absurd ?_ (accepted .hashEparse)
          simp only [hashUriParseMultihash, matched, whole, b58Decode, Stack.length_uninitialized,
            ended, Result.ok_bind, Result.error_bind]
      | some written =>
          obtain ⟨bin, size⟩ := written
          have parsed := hashUriParseMultihash_of_decoded matched ended stack
          by_cases short : size < 2
          · rw [if_pos short] at parsed
            exact absurd parsed (accepted .hashEparse)
          · rw [if_neg short] at parsed
            cases known : multihashAlgoDecode bin.head? with
            | error failure =>
                obtain rfl := multihashAlgoDecode_error known
                rw [known, Result.error_bind] at parsed
                exact absurd parsed (accepted .hashEparse)
            | ok algo => exact ⟨m, bin, size, algo, rfl, ended, by omega, known⟩

/-- **A link is decoded without reading what was not written** exactly when it does not
begin with `1`. -/
theorem returnsDecoded_iff {stack : Stack} {URI : Str} (accepted : Accepted stack URI) :
    ReturnsDecoded URI ↔ URI.head? ≠ some '1' := by
  obtain ⟨m, bin, size, algo, matched, decoded, enough, known⟩ := accepted.decoded
  obtain ⟨written, reported⟩ := Base58.b58tobin_eq_some decoded
  rw [takeWhile_zero_of_algo known, List.length_nil, Nat.sub_zero, ← written] at reported
  rw [← length_takeWhile_ones_eq_zero_iff]
  constructor
  · rintro ⟨otherBin, otherSize, obj, sameDecoded, few, -⟩
    cases decoded.symm.trans sameDecoded
    omega
  · intro noOnes
    have parsed (stack : Stack) : hashUriParseMultihash stack URI =
        .ok ⟨.linkMultihash, some algo, (bin.take size).drop 2⟩ := by
      rw [hashUriParseMultihash_of_decoded matched decoded stack, if_neg (by omega), known,
        Result.ok_bind]
      have read : readCells (bin ++ (stack.uninitialized (2 + hashDigestMax)).drop bin.length) 2
          (size - 2) = .ok ((bin.take size).drop 2) := by
        refine readCells_eq_ok.mpr ⟨?_, ?_⟩
        · rw [List.length_append]
          omega
        · rw [List.drop_append_of_le_length (by omega), List.take_append_of_le_length (by
            rw [List.length_drop]
            omega), List.drop_take]
      rw [read, Result.ok_bind]
    refine ⟨bin, size, _, decoded, by omega, parsed, rfl, ?_⟩
    rw [List.length_drop, List.length_take]
    omega

/-- A link of eight characters that is decoded to six bytes. -/
theorem returnsDecoded_iff_short : Accepted (fun _ => 0) "9zzzzzzz".toList ∧
    (ReturnsDecoded "9zzzzzzz".toList ↔ "9zzzzzzz".toList.head? ≠ some '1') := by
  have parsed : (hashUriParseMultihash (fun _ => 0) "9zzzzzzz".toList).toOption =
      some ⟨.linkMultihash, some .sha256, [199, 1, 254, 127]⟩ := by decide +kernel
  have accepted : Accepted (fun _ => 0) "9zzzzzzz".toList := by
    intro rc refused
    rw [refused] at parsed
    cases parsed
  exact ⟨accepted, returnsDecoded_iff accepted⟩

/-- With a `1` in front, six bytes are written, seven are reported, and the last byte of the
digest is whatever was on the stack. -/
theorem returns_undecoded :
    (hashUriParseMultihash (fun _ => 0) "19zzzzzzz".toList).toOption =
      some ⟨.linkMultihash, some .sha256, [199, 1, 254, 127, 0]⟩ ∧
    (hashUriParseMultihash (fun _ => 7) "19zzzzzzz".toList).toOption =
      some ⟨.linkMultihash, some .sha256, [199, 1, 254, 127, 7]⟩ ∧
    ¬ ReturnsDecoded "19zzzzzzz".toList := by
  have first : (hashUriParseMultihash (fun _ => 0) "19zzzzzzz".toList).toOption =
      some ⟨.linkMultihash, some .sha256, [199, 1, 254, 127, 0]⟩ := by decide +kernel
  have second : (hashUriParseMultihash (fun _ => 7) "19zzzzzzz".toList).toOption =
      some ⟨.linkMultihash, some .sha256, [199, 1, 254, 127, 7]⟩ := by decide +kernel
  refine ⟨first, second, ?_⟩
  rintro ⟨_, _, obj, -, -, same, -⟩
  rw [same, Except.toOption] at first second
  cases first
  cases second

end HashArchive.Hash
