import HashArchive.Foundations.CProgram
import Mathlib.Algebra.Group.Nat.Defs
import Mathlib.Data.Fintype.Basic

/-!
# Hash algorithms and the text forms of a digest

The table of hash algorithms, and the hexadecimal and base-64 encoders and
decoders of `util/hash.c`.

An encoder writes into an array of `max` cells, one group at a time, and stops
at the last group that fits. `hexEncode_spec` and `b64Encode_spec` say what it
leaves: the text of as many bytes as fit, then a NUL. A decoder reads at most
`len` cells and stops at the end of the text it is given;
`hexDecode_hexText` and `b64Decode_b64Text` say that it reads the text of a
digest back.
-/

set_option autoImplicit false

namespace HashArchive.Hash

/-! ## Algorithms -/

/-- `hash_algo`, less the value for an unknown algorithm. -/
inductive HashAlgo where
  | md5
  | sha1
  | sha256
  | sha384
  | sha512
deriving DecidableEq, Repr

namespace HashAlgo

/-- The algorithms in the order of their numbers. -/
def all : List HashAlgo := [md5, sha1, sha256, sha384, sha512]

theorem mem_all (algo : HashAlgo) : algo ∈ all := by cases algo <;> decide

instance : Fintype HashAlgo := ⟨⟨all, by decide⟩, mem_all⟩

/-- The number of an algorithm. -/
def index : HashAlgo → ℕ
  | md5 => 0
  | sha1 => 1
  | sha256 => 2
  | sha384 => 3
  | sha512 => 4

theorem index_injective : Function.Injective index := by
  intro first second same
  cases first <;> cases second <;> first | rfl | exact absurd same (by decide)

theorem index_lt (algo : HashAlgo) : algo.index < all.length := by cases algo <;> decide

/-- The first algorithms are those of the least numbers. -/
theorem mem_take_all_iff {algo : HashAlgo} {count : ℕ} :
    algo ∈ all.take count ↔ algo.index < count := by
  by_cases few : count < all.length
  · have each : ∀ algo : HashAlgo, ∀ count < all.length,
        algo ∈ all.take count ↔ algo.index < count := by
      decide
    exact each algo count few
  · rw [List.take_of_length_le (not_lt.mp few)]
    exact iff_of_true algo.mem_all (algo.index_lt.trans_le (not_lt.mp few))

/-- `hash_algo_names`. -/
def name : HashAlgo → Str
  | md5 => "md5".toList
  | sha1 => "sha1".toList
  | sha256 => "sha256".toList
  | sha384 => "sha384".toList
  | sha512 => "sha512".toList

/-- `hash_algo_digest_len`. -/
def digestLen : HashAlgo → ℕ
  | md5 => 16
  | sha1 => 20
  | sha256 => 32
  | sha384 => 48
  | sha512 => 64

end HashAlgo

/-- `HASH_DIGEST_MAX`. -/
def hashDigestMax : ℕ := 64

theorem HashAlgo.digestLen_le (algo : HashAlgo) : algo.digestLen ≤ hashDigestMax := by
  cases algo <;> decide

/-- `hash_algo_parse`: the first algorithm whose name is the text, whatever the
case of its letters; `none` is `HASH_ALGO_UNKNOWN`. -/
def hashAlgoParse (text : Str) : Option HashAlgo :=
  HashAlgo.all.find? fun algo => text.map Char.toLower == algo.name.map Char.toLower

theorem hashAlgoParse_name (algo : HashAlgo) : hashAlgoParse algo.name = some algo := by
  cases algo <;> decide

/-! ## Hexadecimal -/

/-- `map[n]` in `hex_encode`. -/
def hexMap (n : ℕ) : Char := "0123456789abcdef".toList.getD n nul

/-- `hex_char`; `none` is `HASH_EINVAL`. -/
def hexChar (c : Char) : Option ℕ :=
  if '0' ≤ c ∧ c ≤ '9' then some (c.toNat - '0'.toNat)
  else if 'a' ≤ c ∧ c ≤ 'f' then some (c.toNat - 'a'.toNat + 0xa)
  else if 'A' ≤ c ∧ c ≤ 'F' then some (c.toNat - 'A'.toNat + 0xA)
  else none

/-- The loop of `hex_encode` from byte `i` on, into an array with room for `max`. -/
def hexEncodeLoop (max : ℕ) : List UInt8 → ℕ → List Char → Result (List Char × ℕ)
  | [], i, out => do
    let out ← writeCell out (i * 2 + 0) nul
    .ok (out, i * 2 + 0)
  | byte :: buf, i, out =>
    if i * 2 + 1 + 1 < max then do
      let out ← writeCell out (i * 2 + 0) (hexMap (byte.toNat >>> 4 &&& 0xf))
      let out ← writeCell out (i * 2 + 1) (hexMap (byte.toNat >>> 0 &&& 0xf))
      hexEncodeLoop max buf (i + 1) out
    else do
      let out ← writeCell out (i * 2 + 0) nul
      .ok (out, i * 2 + 0)

/-- `hex_encode`: the array afterwards and the length of the string in it. -/
def hexEncode (buf : List UInt8) (out : List Char) (max : ℕ) : Result (List Char × ℕ) :=
  hexEncodeLoop max buf 0 out

/-- `hex_decode` of the cells from `str` on. -/
def hexDecode : List Char → ℕ → ℕ → Result (List UInt8)
  | _, _, 0 => .ok []
  | str, len, max + 1 =>
    if len ≤ 1 then .ok [] else
    match str with
    | [] => .error (.fault .outOfBounds)
    | first :: str =>
      if first = nul then .ok [] else
      match str with
      | [] => .error (.fault .outOfBounds)
      | second :: str =>
        if second = nul then .ok [] else
        match hexChar first, hexChar second with
        | some hi, some lo => do
          let decoded ← hexDecode str (len - 2) max
          .ok (UInt8.ofNat (hi <<< 4 ||| lo) :: decoded)
        | _, _ => .error (.code .hashEinval)

/-- The hexadecimal text of a byte string. -/
def hexText (buf : List UInt8) : Str :=
  buf.flatMap fun byte => [hexMap (byte.toNat >>> 4 &&& 0xf), hexMap (byte.toNat >>> 0 &&& 0xf)]

@[simp] theorem hexText_nil : hexText [] = [] := rfl

@[simp] theorem hexText_cons (byte : UInt8) (buf : List UInt8) :
    hexText (byte :: buf) = hexMap (byte.toNat >>> 4 &&& 0xf) ::
      hexMap (byte.toNat >>> 0 &&& 0xf) :: hexText buf := rfl

@[simp] theorem length_hexText (buf : List UInt8) : (hexText buf).length = 2 * buf.length := by
  induction buf with
  | nil => rfl
  | cons byte buf ih =>
      rw [hexText_cons]
      simp only [List.length_cons, ih]
      omega

/-- A four-bit value is below sixteen. -/
theorem and_0xf_lt (n : ℕ) : n &&& 0xf < 16 := by
  have mask := Nat.and_two_pow_sub_one_eq_mod n 4
  simp only [Nat.reducePow, Nat.add_one_sub_one] at mask
  omega

/-- A hexadecimal digit is a lower-case letter or a decimal digit, and reads back as its value. -/
theorem hexMap_spec : ∀ n < 16, hexChar (hexMap n) = some n ∧ (hexMap n).isAlphanum = true ∧
    hexMap n ≠ nul := by decide

/-- The text of a byte string is made of hexadecimal digits. -/
theorem exists_of_mem_hexText {buf : List UInt8} {c : Char} (member : c ∈ hexText buf) :
    ∃ n < 16, c = hexMap n := by
  obtain ⟨byte, -, digit⟩ := List.mem_flatMap.mp member
  simp only [List.mem_cons, List.not_mem_nil, or_false] at digit
  rcases digit with rfl | rfl <;> exact ⟨_, and_0xf_lt _, rfl⟩

theorem hexText_alphanum {buf : List UInt8} : ∀ c ∈ hexText buf, c.isAlphanum = true := by
  intro c member
  obtain ⟨n, small, rfl⟩ := exists_of_mem_hexText member
  exact (hexMap_spec n small).2.1

theorem nul_not_mem_hexText (buf : List UInt8) : nul ∉ hexText buf := by
  intro member
  exact absurd (hexText_alphanum nul member) (by decide)

/-- The two halves of a byte make the byte. -/
theorem byte_of_halves (byte : UInt8) :
    UInt8.ofNat ((byte.toNat >>> 4 &&& 0xf) <<< 4 ||| (byte.toNat >>> 0 &&& 0xf)) = byte := by
  have halves : ∀ n < 256, (n >>> 4 &&& 0xf) <<< 4 ||| (n >>> 0 &&& 0xf) = n := by decide +kernel
  rw [halves byte.toNat byte.toNat_lt, UInt8.ofNat_toNat]

/-- **Decoding the hexadecimal text of a byte string gives it back.** -/
theorem hexDecode_hexText (buf : List UInt8) {max : ℕ} (room : buf.length < max) :
    hexDecode (hexText buf) (hexText buf).length max = .ok buf := by
  induction buf generalizing max with
  | nil =>
      cases max with
      | zero => rfl
      | succ max => simp [hexDecode]
  | cons byte buf ih =>
      cases max with
      | zero => simp at room
      | succ max =>
          have high := hexMap_spec _ (and_0xf_lt (byte.toNat >>> 4))
          have low := hexMap_spec _ (and_0xf_lt (byte.toNat >>> 0))
          have tail : hexDecode (hexText buf) (hexText buf).length max = .ok buf :=
            ih (by simpa using room)
          have long : ¬ (hexText (byte :: buf)).length ≤ 1 := by
            rw [length_hexText, List.length_cons]
            omega
          have remaining : (hexText (byte :: buf)).length - 2 = (hexText buf).length := by
            simp only [length_hexText, List.length_cons]
            omega
          rw [hexText_cons] at long remaining ⊢
          rw [hexDecode, if_neg long, remaining]
          simp only [high, low, if_false, tail, byte_of_halves]
          rfl

/-- Ending a string: a NUL in the cell after what is already there. -/
theorem writeCell_nul (before after : List Char) {index : ℕ} (position : index = before.length)
    (room : 0 < after.length) :
    ∃ unwritten, writeCell (before ++ after) index nul = .ok (before ++ nul :: unwritten) := by
  obtain ⟨old, unwritten, rfl⟩ := List.exists_cons_of_length_pos room
  exact ⟨unwritten, writeCell_append_cons before unwritten old nul position⟩

/-- **What the loop of `hex_encode` leaves**: after what was already there, the
text of the bytes that fit and a NUL. -/
theorem hexEncodeLoop_spec {max : ℕ} (buf : List UInt8) (i : ℕ) (before after : List Char)
    (position : before.length = i * 2) (room : i * 2 < max)
    (size : max ≤ before.length + after.length) :
    ∃ unwritten, hexEncodeLoop max buf i (before ++ after) =
      .ok (before ++ hexText (buf.take ((max - 1 - i * 2) / 2)) ++ nul :: unwritten,
        i * 2 + (hexText (buf.take ((max - 1 - i * 2) / 2))).length) := by
  induction buf generalizing i before after with
  | nil =>
      obtain ⟨unwritten, written⟩ := writeCell_nul before after position.symm (by omega)
      exact ⟨unwritten, by simp [hexEncodeLoop, written]⟩
  | cons byte buf ih =>
      by_cases fits : i * 2 + 1 + 1 < max
      · obtain ⟨first, second, after, rfl⟩ : ∃ first second tail, after = first :: second :: tail := by
          rcases after with _ | ⟨first, _ | ⟨second, tail⟩⟩
          · simp only [List.length_nil] at size; omega
          · simp only [List.length_cons, List.length_nil] at size; omega
          · exact ⟨first, second, tail, rfl⟩
        have high := writeCell_append_cons before (second :: after) first
          (hexMap (byte.toNat >>> 4 &&& 0xf)) position.symm
        have low := writeCell_append_cons (before ++ [hexMap (byte.toNat >>> 4 &&& 0xf)]) after second
          (hexMap (byte.toNat >>> 0 &&& 0xf))
          (show i * 2 + 1 = (before ++ [hexMap (byte.toNat >>> 4 &&& 0xf)]).length by
            simp [position])
        obtain ⟨unwritten, rest⟩ := ih (i + 1) (before ++ [hexMap (byte.toNat >>> 4 &&& 0xf),
            hexMap (byte.toNat >>> 0 &&& 0xf)]) after (by simp; omega) (by omega)
          (by simp at size ⊢; omega)
        have count : (max - 1 - i * 2) / 2 = (max - 1 - (i + 1) * 2) / 2 + 1 := by omega
        refine ⟨unwritten, ?_⟩
        simp only [List.append_assoc, List.cons_append, List.nil_append] at low rest
        rw [hexEncodeLoop, if_pos fits, Nat.add_zero, high, Result.ok_bind, low, Result.ok_bind, rest,
          count, List.take_succ_cons, hexText_cons]
        simp only [List.append_assoc, List.cons_append, List.length_cons]
        congr 2
        omega
      · obtain ⟨unwritten, written⟩ := writeCell_nul before after position.symm (by omega)
        have count : (max - 1 - i * 2) / 2 = 0 := by omega
        exact ⟨unwritten, by simp [hexEncodeLoop, fits, written, count]⟩

/-- **`hex_encode` stays within its `max` cells**, and leaves the text of the
bytes that fit, ended by a NUL. -/
theorem hexEncode_spec (buf : List UInt8) (out : List Char) {max : ℕ} (room : 0 < max)
    (size : max ≤ out.length) :
    ∃ unwritten, hexEncode buf out max =
      .ok (hexText (buf.take ((max - 1) / 2)) ++ nul :: unwritten,
        (hexText (buf.take ((max - 1) / 2))).length) := by
  simpa [hexEncode] using hexEncodeLoop_spec buf 0 [] out rfl (by omega) (by simpa using size)

/-! ## Base 64 -/

/-- `b64_type`. -/
inductive B64Type where
  | std
  | url
deriving DecidableEq, Repr

/-- `map[b]` in `b64_encode`. -/
def b64Map : B64Type → ℕ → Char
  | .std, b => "ABCDEFGHIJKLMNOPQRSTUVWXYZabcdefghijklmnopqrstuvwxyz0123456789+/".toList.getD b nul
  | .url, b => "ABCDEFGHIJKLMNOPQRSTUVWXYZabcdefghijklmnopqrstuvwxyz0123456789-_".toList.getD b nul

/-- `b64_term`. -/
def b64Term (c : Char) : Bool := c == nul || c == '='

/-- `b64_char`; `none` is `HASH_EINVAL`. -/
def b64Char (c : Char) : Option ℕ :=
  if 'A' ≤ c ∧ c ≤ 'Z' then some (c.toNat - 'A'.toNat + 0)
  else if 'a' ≤ c ∧ c ≤ 'z' then some (c.toNat - 'a'.toNat + 26)
  else if '0' ≤ c ∧ c ≤ '9' then some (c.toNat - '0'.toNat + 52)
  else if c = '+' ∨ c = '-' then some 62
  else if c = '/' ∨ c = '_' then some 63
  else none

/-- One round of the loop of `b64_encode`, for the group `i` that `buf` begins
with: the array, and the length of the string when the round is the last. -/
def b64EncodeRound (type : B64Type) (max : ℕ) (buf : List UInt8) (i : ℕ) (out : List Char) :
    Result (List Char × Option ℕ) := do
  let extend := type = .std
  let out ← writeCell out (i * 4 + 0) nul
  if i * 4 + 3 + 1 ≥ max then .ok (out, some (i * 4 + 0)) else
  match buf with
  | [] => .ok (out, some (i * 4 + 0))
  | byte0 :: buf => do
    let b := (byte0.toNat &&& 0xfc) >>> 2
    let out ← writeCell out (i * 4 + 0) (b64Map type b)
    let b := (byte0.toNat &&& 0x03) <<< 4
    let out ← writeCell out (i * 4 + 1) (b64Map type b)
    let out ← writeCell out (i * 4 + 2) (if extend then '=' else nul)
    let out ← writeCell out (i * 4 + 3) (if extend then '=' else nul)
    let out ← writeCell out (i * 4 + 3 + 1) nul
    match buf with
    | [] => .ok (out, some (if extend then i * 4 + 3 + 1 else i * 4 + 1 + 1))
    | byte1 :: buf => do
      let b := b ||| (byte1.toNat &&& 0xf0) >>> 4
      let out ← writeCell out (i * 4 + 1) (b64Map type b)
      let b := (byte1.toNat &&& 0x0f) <<< 2
      let out ← writeCell out (i * 4 + 2) (b64Map type b)
      match buf with
      | [] => .ok (out, some (if extend then i * 4 + 3 + 1 else i * 4 + 2 + 1))
      | byte2 :: _ => do
        let b := b ||| (byte2.toNat &&& 0xc0) >>> 6
        let out ← writeCell out (i * 4 + 2) (b64Map type b)
        let b := (byte2.toNat &&& 0x3f) >>> 0
        let out ← writeCell out (i * 4 + 3) (b64Map type b)
        .ok (out, none)

/-- The loop of `b64_encode` from group `i` on, into an array with room for `max`. -/
def b64EncodeLoop (type : B64Type) (max : ℕ) : List UInt8 → ℕ → List Char → Result (List Char × ℕ)
  | byte0 :: byte1 :: byte2 :: buf, i, out => do
    match ← b64EncodeRound type max (byte0 :: byte1 :: byte2 :: buf) i out with
    | (out, some length) => .ok (out, length)
    | (out, none) => b64EncodeLoop type max buf (i + 1) out
  | buf, i, out => do
    match ← b64EncodeRound type max buf i out with
    | (out, some length) => .ok (out, length)
    | (_, none) => .error (.fault .assertion)

/-- `b64_encode`: the array afterwards and the length of the string in it. -/
def b64Encode (type : B64Type) (buf : List UInt8) (out : List Char) (max : ℕ) :
    Result (List Char × ℕ) :=
  b64EncodeLoop type max buf 0 out

/-- `b64_decode` of the cells from `str` on. -/
def b64Decode : List Char → ℕ → ℕ → Result (List UInt8)
  | str, len, max =>
    if max ≤ 0 then .ok [] else
    if len ≤ 0 then .ok [] else
    match str with
    | [] => .error (.fault .outOfBounds)
    | char0 :: str =>
    if b64Term char0 then .ok [] else
    match b64Char char0 with
    | none => .error (.code .hashEinval)
    | some six0 =>
    -- No assignment
    if len ≤ 1 then .ok [] else
    match str with
    | [] => .error (.fault .outOfBounds)
    | char1 :: str =>
    if b64Term char1 then .ok [] else
    match b64Char char1 with
    | none => .error (.code .hashEinval)
    | some six1 =>
    let byte0 := UInt8.ofNat (six0 <<< 2 ||| six1 >>> 4)
    if max ≤ 1 then .ok [byte0] else
    if len ≤ 2 then .ok [byte0] else
    match str with
    | [] => .error (.fault .outOfBounds)
    | char2 :: str =>
    if b64Term char2 then .ok [byte0] else
    match b64Char char2 with
    | none => .error (.code .hashEinval)
    | some six2 =>
    let byte1 := UInt8.ofNat (six1 <<< 4 ||| six2 >>> 2)
    if max ≤ 2 then .ok [byte0, byte1] else
    if len ≤ 3 then .ok [byte0, byte1] else
    match str with
    | [] => .error (.fault .outOfBounds)
    | char3 :: str =>
    if b64Term char3 then .ok [byte0, byte1] else
    match b64Char char3 with
    | none => .error (.code .hashEinval)
    | some six3 => do
    let byte2 := UInt8.ofNat (six2 <<< 6 ||| six3 >>> 0)
    let decoded ← b64Decode str (len - 4) (max - 3)
    .ok (byte0 :: byte1 :: byte2 :: decoded)

/-- The base-64 text of a byte string. -/
def b64Text (type : B64Type) : List UInt8 → Str
  | [] => []
  | [byte0] =>
    b64Map type ((byte0.toNat &&& 0xfc) >>> 2) :: b64Map type ((byte0.toNat &&& 0x03) <<< 4) ::
      if type = .std then ['=', '='] else []
  | [byte0, byte1] =>
    b64Map type ((byte0.toNat &&& 0xfc) >>> 2) ::
      b64Map type ((byte0.toNat &&& 0x03) <<< 4 ||| (byte1.toNat &&& 0xf0) >>> 4) ::
      b64Map type ((byte1.toNat &&& 0x0f) <<< 2) :: if type = .std then ['='] else []
  | byte0 :: byte1 :: byte2 :: buf =>
    b64Map type ((byte0.toNat &&& 0xfc) >>> 2) ::
      b64Map type ((byte0.toNat &&& 0x03) <<< 4 ||| (byte1.toNat &&& 0xf0) >>> 4) ::
      b64Map type ((byte1.toNat &&& 0x0f) <<< 2 ||| (byte2.toNat &&& 0xc0) >>> 6) ::
      b64Map type ((byte2.toNat &&& 0x3f) >>> 0) :: b64Text type buf

theorem b64Text_group (type : B64Type) (byte0 byte1 byte2 : UInt8) (buf : List UInt8) :
    b64Text type (byte0 :: byte1 :: byte2 :: buf) =
      b64Text type [byte0, byte1, byte2] ++ b64Text type buf := rfl

theorem length_b64Text_group (type : B64Type) (byte0 byte1 byte2 : UInt8) :
    (b64Text type [byte0, byte1, byte2]).length = 4 := rfl

/-- A base-64 digit reads back as its value and ends nothing. -/
theorem b64Map_spec (type : B64Type) : ∀ n < 64, b64Char (b64Map type n) = some n ∧
    b64Term (b64Map type n) = false := by
  cases type <;> decide +kernel

/-- The bit fields of a byte as quotients and remainders. -/
theorem byte_fields (byte : UInt8) :
    (byte.toNat &&& 0xfc) >>> 2 = byte.toNat / 4 ∧ (byte.toNat &&& 0x03) <<< 4 = byte.toNat % 4 * 16 ∧
      (byte.toNat &&& 0xf0) >>> 4 = byte.toNat / 16 ∧
      (byte.toNat &&& 0x0f) <<< 2 = byte.toNat % 16 * 4 ∧
      (byte.toNat &&& 0xc0) >>> 6 = byte.toNat / 64 ∧ (byte.toNat &&& 0x3f) >>> 0 = byte.toNat % 64 := by
  have fields : ∀ n < 256, (n &&& 0xfc) >>> 2 = n / 4 ∧ (n &&& 0x03) <<< 4 = n % 4 * 16 ∧
      (n &&& 0xf0) >>> 4 = n / 16 ∧ (n &&& 0x0f) <<< 2 = n % 16 * 4 ∧
      (n &&& 0xc0) >>> 6 = n / 64 ∧ (n &&& 0x3f) >>> 0 = n % 64 := by decide +kernel
  exact fields byte.toNat byte.toNat_lt

/-- Joining bits that do not overlap is adding. -/
theorem or_eq_add {high low bits : ℕ} (small : low < 2 ^ bits) :
    high * 2 ^ bits ||| low = high * 2 ^ bits + low := by
  rw [← Nat.shiftLeft_eq, Nat.shiftLeft_add_eq_or_of_lt small]

/-- The first byte of a group, from the first two digits. -/
theorem decodeByte0 (byte : UInt8) {rest : ℕ} (small : rest < 16) :
    UInt8.ofNat ((byte.toNat / 4) <<< 2 ||| (byte.toNat % 4 * 16 + rest) >>> 4) = byte := by
  have low : (byte.toNat % 4 * 16 + rest) >>> 4 = byte.toNat % 4 := by
    rw [Nat.shiftRight_eq_div_pow]
    omega
  rw [low, Nat.shiftLeft_eq, or_eq_add (by omega)]
  rw [show byte.toNat / 4 * 2 ^ 2 + byte.toNat % 4 = byte.toNat by omega, UInt8.ofNat_toNat]

/-- The second byte of a group, from the second and third digits. -/
theorem decodeByte1 (byte : UInt8) {high rest : ℕ} (small : rest < 4) :
    UInt8.ofNat ((high * 16 + byte.toNat / 16) <<< 4 ||| (byte.toNat % 16 * 4 + rest) >>> 2) =
      byte := by
  have low : (byte.toNat % 16 * 4 + rest) >>> 2 = byte.toNat % 16 := by
    rw [Nat.shiftRight_eq_div_pow]
    omega
  have bound := byte.toNat_lt
  rw [low, Nat.shiftLeft_eq, or_eq_add (by omega)]
  apply UInt8.toNat_inj.mp
  rw [UInt8.toNat_ofNat']
  omega

/-- The third byte of a group, from the third and fourth digits. -/
theorem decodeByte2 (byte : UInt8) (high : ℕ) :
    UInt8.ofNat ((high * 4 + byte.toNat / 64) <<< 6 ||| (byte.toNat % 64) >>> 0) = byte := by
  have bound := byte.toNat_lt
  rw [Nat.shiftRight_zero, Nat.shiftLeft_eq, or_eq_add (by omega)]
  apply UInt8.toNat_inj.mp
  rw [UInt8.toNat_ofNat']
  omega

/-- The five cells that a group of `b64_encode` writes. -/
theorem exists_five_cells {cells : List Char} (room : 5 ≤ cells.length) :
    ∃ c0 c1 c2 c3 c4 tail, cells = c0 :: c1 :: c2 :: c3 :: c4 :: tail := by
  match cells, room with
  | c0 :: c1 :: c2 :: c3 :: c4 :: tail, _ => exact ⟨c0, c1, c2, c3, c4, tail, rfl⟩

/-- **What a round of `b64_encode` leaves** when it does not run out of room:
the text of the group, and a NUL after it. -/
theorem b64EncodeRound_spec (type : B64Type) {max : ℕ} (buf : List UInt8) (i : ℕ)
    (before after : List Char) (position : i * 4 = before.length)
    (size : max ≤ before.length + after.length) (continues : ¬ i * 4 + 3 + 1 ≥ max) :
    ∃ unwritten, b64EncodeRound type max buf i (before ++ after) =
      .ok (before ++ b64Text type (buf.take 3) ++ nul :: unwritten,
        if buf.length < 3 then some (i * 4 + (b64Text type (buf.take 3)).length) else none) ∧
      (b64Text type (buf.take 3)).length + (unwritten.length + 1) = after.length := by
  obtain ⟨c0, c1, c2, c3, c4, tail, rfl⟩ := exists_five_cells (show 5 ≤ after.length by omega)
  simp only [b64EncodeRound, if_neg continues]
  simp only [position, Nat.add_assoc, writeCell_append, Result.ok_bind, writeCell_cons_zero,
    writeCell_cons_succ, Nat.reduceAdd]
  match buf with
  | [] => exact ⟨c1 :: c2 :: c3 :: c4 :: tail, by simp [b64Text], by simp [b64Text]⟩
  | [byte0] =>
      cases type with
      | std => exact ⟨tail, by simp [b64Text], by simp [b64Text]; omega⟩
      | url => exact ⟨nul :: nul :: tail, by simp [b64Text], by simp [b64Text]; omega⟩
  | [byte0, byte1] =>
      cases type with
      | std => exact ⟨tail, by simp [b64Text], by simp [b64Text]; omega⟩
      | url => exact ⟨nul :: tail, by simp [b64Text], by simp [b64Text]; omega⟩
  | byte0 :: byte1 :: byte2 :: buf => exact ⟨tail, by simp [b64Text], by simp [b64Text]; omega⟩

/-- A round of `b64_encode` that runs out of room ends the string. -/
theorem b64EncodeRound_stop (type : B64Type) {max : ℕ} (buf : List UInt8) (i : ℕ)
    (before after : List Char) (position : i * 4 = before.length) (room : 0 < after.length)
    (stop : i * 4 + 3 + 1 ≥ max) :
    ∃ unwritten, b64EncodeRound type max buf i (before ++ after) =
      .ok (before ++ nul :: unwritten, some (i * 4)) := by
  obtain ⟨unwritten, written⟩ := writeCell_nul before after position room
  exact ⟨unwritten, by simp [b64EncodeRound, written, stop]⟩

/-- **What the loop of `b64_encode` leaves**: after what was already there, the
text of the groups that fit and a NUL. -/
theorem b64EncodeLoop_spec (type : B64Type) (max : ℕ) (buf : List UInt8) (i : ℕ)
    (before after : List Char) (position : i * 4 = before.length) (room : i * 4 < max)
    (size : max ≤ before.length + after.length) :
    ∃ unwritten, b64EncodeLoop type max buf i (before ++ after) =
      .ok (before ++ b64Text type (buf.take (3 * ((max - 1 - i * 4) / 4))) ++ nul :: unwritten,
        i * 4 + (b64Text type (buf.take (3 * ((max - 1 - i * 4) / 4)))).length) := by
  by_cases stop : i * 4 + 3 + 1 ≥ max
  · obtain ⟨unwritten, last⟩ := b64EncodeRound_stop type buf i before after position (by omega) stop
    have none : (max - 1 - i * 4) / 4 = 0 := by omega
    refine ⟨unwritten, ?_⟩
    unfold b64EncodeLoop
    split <;> simp [last, none, b64Text]
  obtain ⟨unwritten, round, cells⟩ :=
    b64EncodeRound_spec type buf i before after position size stop
  have count : (max - 1 - i * 4) / 4 = (max - 1 - (i + 1) * 4) / 4 + 1 := by omega
  rw [count, Nat.mul_succ]
  match buf with
  | byte0 :: byte1 :: byte2 :: buf =>
      have full : ¬ (byte0 :: byte1 :: byte2 :: buf).length < 3 := by simp
      simp only [List.take_succ_cons, List.take_zero, if_neg full] at round cells
      rw [length_b64Text_group] at cells
      obtain ⟨unwritten, rest⟩ := b64EncodeLoop_spec type max buf (i + 1)
        (before ++ b64Text type [byte0, byte1, byte2]) (nul :: unwritten)
        (by rw [List.length_append, length_b64Text_group]; omega) (by omega)
        (by rw [List.length_append, length_b64Text_group, List.length_cons]; omega)
      refine ⟨unwritten, ?_⟩
      rw [b64EncodeLoop, round, Result.ok_bind]
      simp only [rest, List.take_succ_cons]
      rw [b64Text_group type byte0 byte1 byte2 (buf.take _)]
      simp only [List.append_assoc, List.length_append, length_b64Text_group]
      congr 2
      omega
  | [] | [byte0] | [byte0, byte1] =>
      refine ⟨unwritten, ?_⟩
      simp [b64EncodeLoop, round]
termination_by buf.length

/-- **`b64_encode` stays within its `max` cells**, and leaves the text of the
groups that fit, ended by a NUL. -/
theorem b64Encode_spec (type : B64Type) (buf : List UInt8) (out : List Char) {max : ℕ}
    (room : 0 < max) (size : max ≤ out.length) :
    ∃ unwritten, b64Encode type buf out max =
      .ok (b64Text type (buf.take (3 * ((max - 1) / 4))) ++ nul :: unwritten,
        (b64Text type (buf.take (3 * ((max - 1) / 4)))).length) := by
  simpa [b64Encode] using b64EncodeLoop_spec type max buf 0 [] out rfl (by omega) (by simpa using size)

/-- The four digits of a group. -/
theorem b64_digits (byte0 byte1 byte2 : UInt8) :
    (byte0.toNat &&& 0xfc) >>> 2 = byte0.toNat / 4 ∧
      (byte0.toNat &&& 0x03) <<< 4 ||| (byte1.toNat &&& 0xf0) >>> 4 =
        byte0.toNat % 4 * 16 + byte1.toNat / 16 ∧
      (byte1.toNat &&& 0x0f) <<< 2 ||| (byte2.toNat &&& 0xc0) >>> 6 =
        byte1.toNat % 16 * 4 + byte2.toNat / 64 ∧
      (byte2.toNat &&& 0x3f) >>> 0 = byte2.toNat % 64 := by
  obtain ⟨first, high0, -, -, -, -⟩ := byte_fields byte0
  obtain ⟨-, -, low1, high1, -, -⟩ := byte_fields byte1
  obtain ⟨-, -, -, -, low2, last⟩ := byte_fields byte2
  have bound1 := byte1.toNat_lt
  have bound2 := byte2.toNat_lt
  have join1 : byte0.toNat % 4 * 2 ^ 4 ||| byte1.toNat / 16 = _ := or_eq_add (by omega)
  have join2 : byte1.toNat % 16 * 2 ^ 2 ||| byte2.toNat / 64 = _ := or_eq_add (by omega)
  rw [first, high0, low1, high1, low2, last]
  exact ⟨rfl, join1, join2, rfl⟩

/-- **Decoding the base-64 text of a byte string gives it back**, in either alphabet. -/
theorem b64Decode_b64Text (type : B64Type) (buf : List UInt8) {max : ℕ} (room : buf.length < max) :
    b64Decode (b64Text type buf) (b64Text type buf).length max = .ok buf := by
  have term : b64Term '=' = true := by decide
  match buf with
  | [] => simp [b64Decode.eq_def, b64Text]
  | [byte0] =>
      obtain ⟨digit0, digit1, -, -⟩ := b64_digits byte0 0 0
      have bound := byte0.toNat_lt
      obtain ⟨read0, more0⟩ := b64Map_spec type (byte0.toNat / 4) (by omega)
      obtain ⟨read1, more1⟩ := b64Map_spec type (byte0.toNat % 4 * 16) (by omega)
      have back0 := decodeByte0 byte0 (show 0 < 16 by decide)
      obtain ⟨extra, rfl⟩ : ∃ extra, max = extra + 2 := ⟨max - 2, by simp at room; omega⟩
      simp only [UInt8.toNat_zero, Nat.zero_and, Nat.zero_shiftRight, Nat.or_zero, Nat.zero_div,
        Nat.add_zero] at digit1 back0
      cases type <;>
        simp [b64Text, digit0, digit1, b64Decode.eq_def, read0, more0, read1, more1, back0, term,
          -UInt8.ofNat_or]
  | [byte0, byte1] => 
      obtain ⟨digit0, digit1, digit2, -⟩ := b64_digits byte0 byte1 0
      have bound0 := byte0.toNat_lt
      have bound1 := byte1.toNat_lt
      obtain ⟨read0, more0⟩ := b64Map_spec type (byte0.toNat / 4) (by omega)
      obtain ⟨read1, more1⟩ := b64Map_spec type (byte0.toNat % 4 * 16 + byte1.toNat / 16) (by omega)
      obtain ⟨read2, more2⟩ := b64Map_spec type (byte1.toNat % 16 * 4) (by omega)
      have back0 := decodeByte0 byte0 (show byte1.toNat / 16 < 16 by omega)
      have back1 := @decodeByte1 byte1 (byte0.toNat % 4) 0 (by decide)
      obtain ⟨extra, rfl⟩ : ∃ extra, max = extra + 3 := ⟨max - 3, by simp at room; omega⟩
      simp only [UInt8.toNat_zero, Nat.zero_and, Nat.zero_shiftRight, Nat.or_zero, Nat.zero_div,
        Nat.add_zero] at digit2 back1
      cases type <;>
        simp [b64Text, digit0, digit1, digit2, b64Decode.eq_def, read0, more0, read1, more1, read2, more2,
          back0, back1, term, -UInt8.ofNat_or]
  | byte0 :: byte1 :: byte2 :: buf =>
      obtain ⟨digit0, digit1, digit2, digit3⟩ := b64_digits byte0 byte1 byte2
      have bound0 := byte0.toNat_lt
      have bound1 := byte1.toNat_lt
      have bound2 := byte2.toNat_lt
      obtain ⟨read0, more0⟩ := b64Map_spec type (byte0.toNat / 4) (by omega)
      obtain ⟨read1, more1⟩ := b64Map_spec type (byte0.toNat % 4 * 16 + byte1.toNat / 16) (by omega)
      obtain ⟨read2, more2⟩ := b64Map_spec type (byte1.toNat % 16 * 4 + byte2.toNat / 64) (by omega)
      obtain ⟨read3, more3⟩ := b64Map_spec type (byte2.toNat % 64) (by omega)
      have back0 := decodeByte0 byte0 (show byte1.toNat / 16 < 16 by omega)
      have back1 := @decodeByte1 byte1 (byte0.toNat % 4) (byte2.toNat / 64) (by omega)
      have back2 := decodeByte2 byte2 (byte1.toNat % 16)
      obtain ⟨extra, rfl⟩ : ∃ extra, max = extra + 4 := ⟨max - 4, by simp at room; omega⟩
      have rest : b64Decode (b64Text type buf) (b64Text type buf).length (extra + 1) = .ok buf :=
        b64Decode_b64Text type buf (by simpa using room)
      rw [Nat.shiftRight_zero] at back2
      rw [b64Text, digit0, digit1, digit2, digit3, b64Decode.eq_def]
      simp [read0, more0, read1, more1, read2, more2, read3, more3, back0, back1, back2, rest,
        -UInt8.ofNat_or]
termination_by buf.length

/-! ## The characters of a base-64 text -/

/-- The four digits of a group are below 64. -/
theorem b64_digits_lt (byte0 byte1 byte2 : UInt8) :
    (byte0.toNat &&& 0xfc) >>> 2 < 64 ∧
      (byte0.toNat &&& 0x03) <<< 4 ||| (byte1.toNat &&& 0xf0) >>> 4 < 64 ∧
      (byte1.toNat &&& 0x0f) <<< 2 ||| (byte2.toNat &&& 0xc0) >>> 6 < 64 ∧
      (byte2.toNat &&& 0x3f) >>> 0 < 64 := by
  obtain ⟨digit0, digit1, digit2, digit3⟩ := b64_digits byte0 byte1 byte2
  have bound0 := byte0.toNat_lt
  have bound1 := byte1.toNat_lt
  have bound2 := byte2.toNat_lt
  rw [digit0, digit1, digit2, digit3]
  omega

/-- The text of a byte string is digits, then padding. -/
theorem b64Text_eq_append (type : B64Type) (buf : List UInt8) :
    ∃ digits pad, b64Text type buf = digits ++ pad ∧
      (∀ c ∈ digits, ∃ n < 64, c = b64Map type n) ∧
      pad.length ≤ 2 ∧ ∀ c ∈ pad, c = '=' ∧ type = .std := by
  match buf with
  | [] => exact ⟨[], [], rfl, by simp, by simp, by simp⟩
  | [byte0] =>
      obtain ⟨small0, small1, -, -⟩ := b64_digits_lt byte0 0 0
      refine ⟨_ :: _ :: [], if type = .std then ['=', '='] else [], rfl, ?_, by split <;> simp,
        by split <;> simp_all⟩
      simp only [List.mem_cons, List.not_mem_nil, or_false, forall_eq_or_imp, forall_eq]
      exact ⟨⟨_, small0, rfl⟩, ⟨_, by simpa using small1, rfl⟩⟩
  | [byte0, byte1] =>
      obtain ⟨small0, small1, small2, -⟩ := b64_digits_lt byte0 byte1 0
      refine ⟨_ :: _ :: _ :: [], if type = .std then ['='] else [], rfl, ?_, by split <;> simp,
        by split <;> simp_all⟩
      simp only [List.mem_cons, List.not_mem_nil, or_false, forall_eq_or_imp, forall_eq]
      exact ⟨⟨_, small0, rfl⟩, ⟨_, small1, rfl⟩, ⟨_, by simpa using small2, rfl⟩⟩
  | byte0 :: byte1 :: byte2 :: buf =>
      obtain ⟨small0, small1, small2, small3⟩ := b64_digits_lt byte0 byte1 byte2
      obtain ⟨digits, pad, same, inside, short, padding⟩ := b64Text_eq_append type buf
      refine ⟨_ :: _ :: _ :: _ :: digits, pad, by rw [b64Text, same]; rfl, ?_, short, padding⟩
      simp only [List.mem_cons, forall_eq_or_imp]
      exact ⟨⟨_, small0, rfl⟩, ⟨_, small1, rfl⟩, ⟨_, small2, rfl⟩, ⟨_, small3, rfl⟩, inside⟩
termination_by buf.length

/-- The digits of the two alphabets. -/
theorem b64Map_url_mem : ∀ n < 64,
    ((b64Map .url n).isAlphanum || b64Map .url n ∈ ['_', '-']) = true := by decide +kernel

theorem b64Map_std_mem : ∀ n < 64,
    ((b64Map .std n).isAlphanum || b64Map .std n ∈ ['+', '/']) = true := by decide +kernel

theorem nul_not_mem_b64Text (type : B64Type) (buf : List UInt8) : nul ∉ b64Text type buf := by
  obtain ⟨digits, pad, same, inside, -, padding⟩ := b64Text_eq_append type buf
  rw [same, List.mem_append]
  rintro (member | member)
  · obtain ⟨n, small, ended⟩ := inside nul member
    have digit := (b64Map_spec type n small).2
    rw [← ended] at digit
    exact absurd digit (by decide)
  · exact absurd (padding nul member).1 (by decide)

/-- How long the base-64 text of a byte string is: four digits for every three
bytes, with or without the padding of the last group. -/
theorem length_b64Text_bounds (type : B64Type) (buf : List UInt8) :
    4 * buf.length ≤ 3 * (b64Text type buf).length ∧
      3 * (b64Text type buf).length ≤ 4 * (buf.length + 2) := by
  match buf with
  | [] => simp [b64Text]
  | [byte0] => cases type <;> simp [b64Text]
  | [byte0, byte1] => cases type <;> simp [b64Text]
  | byte0 :: byte1 :: byte2 :: buf =>
      obtain ⟨lower, upper⟩ := length_b64Text_bounds type buf
      simp only [b64Text, List.length_cons]
      omega
termination_by buf.length

/-! ## How many bytes a text decodes to -/

/-- A text without a NUL decodes to one byte for every two hexadecimal digits. -/
theorem length_of_hexDecode {str : List Char} {len max : ℕ} {decoded : List UInt8}
    (done : hexDecode str len max = .ok decoded) (terminated : nul ∉ str.take len) :
    decoded.length = min max (len / 2) := by
  fun_induction hexDecode str len max generalizing decoded with
  | case1 => simp_all
  | case2 =>
      cases done
      simp only [List.length_nil]
      omega
  | case3 | case5 | case8 => cases done
  | case4 len | case6 len =>
      obtain ⟨n, rfl⟩ : ∃ n, len = n + 2 := ⟨len - 2, by omega⟩
      simp at terminated
  | case7 len max long first _ second str _ hi lo _ _ ih =>
      obtain ⟨tail, rest, same⟩ := Result.bind_eq_ok.mp done
      obtain ⟨n, rfl⟩ : ∃ n, len = n + 2 := ⟨len - 2, by omega⟩
      cases same
      have step : tail.length = min max ((n + 2 - 2) / 2) := ih rest (by simp_all)
      simp only [List.length_cons, step]
      omega

/-- How many digits of a base-64 text stand before its end. -/
def b64Digits (str : List Char) (len : ℕ) : ℕ := ((str.take len).takeWhile (!b64Term ·)).length

theorem b64Digits_zero {str : List Char} {len : ℕ} (ended : len = 0) : b64Digits str len = 0 := by
  simp [b64Digits, ended]

theorem b64Digits_term {c : Char} {str : List Char} {len : ℕ} (ended : b64Term c = true) :
    b64Digits (c :: str) len = 0 := by
  cases len <;> simp [b64Digits, ended]

theorem b64Digits_cons {c : Char} {str : List Char} {len : ℕ} (more : 0 < len)
    (digit : ¬ b64Term c = true) : b64Digits (c :: str) len = b64Digits str (len - 1) + 1 := by
  obtain ⟨len, rfl⟩ : ∃ n, len = n + 1 := ⟨len - 1, by omega⟩
  simp [b64Digits, digit]

/-- A text decodes to three bytes for every four base-64 digits, rounded down. -/
theorem length_of_b64Decode {str : List Char} {len max : ℕ} {decoded : List UInt8}
    (done : b64Decode str len max = .ok decoded) :
    decoded.length = min max (b64Digits str len * 3 / 4) := by
  fun_induction b64Decode str len max generalizing decoded with
  | case20 =>
      -- The only round that goes on to another group.
      rename_i ih
      obtain ⟨tail, rest, same⟩ := Result.bind_eq_ok.mp done
      cases same
      have step := ih rest
      simp (disch := omega) only [b64Digits_cons, *, List.length_cons, Nat.sub_sub, Nat.reduceAdd]
      omega
  | _ =>
      cases done <;>
        (try simp (disch := first | omega | assumption) only [b64Digits_cons, b64Digits_zero,
          b64Digits_term, List.length_cons, List.length_nil]) <;>
        omega

end HashArchive.Hash
