import HashArchive.Foundations.Scanning
import HashArchive.Util.HashUri

/-!
# What hexadecimal text is read as

`hex_decode` reads two digits at a time. It stops when there is no room for another byte,
when the second digit of a pair would be at `len` or after it, and at a NUL in either place.
All that counts are the pairs of the digits before the end (`hexDecode_eq_hexBytes`): the bytes of
the first of them that fit, or an error when one of these is no pair of digits.

From that everything else follows: what is read and not read, the digit that is left over,
the case of the letters, and that the text `hex_encode` leaves in an array of any size is
decoded to the bytes that fitted (`hex_bounded`).
-/

set_option autoImplicit false

namespace HashArchive.Hash

/-! ## Pairs of digits -/

/-- The digits that are decoded: those before the first NUL and before `len`. -/
def hexRun (str : List Char) (len : ℕ) : List Char := boundedRun (· != nul) str len

/-- The complete pairs of digits. -/
def hexPairs : List Char → List (Char × Char)
  | first :: second :: digits => (first, second) :: hexPairs digits
  | _ => []

/-- The byte of a pair. -/
def hexByte (pair : Char × Char) : Option UInt8 :=
  match hexChar pair.1, hexChar pair.2 with
  | some hi, some lo => some (UInt8.ofNat (hi <<< 4 ||| lo))
  | _, _ => none

/-- A hexadecimal digit. -/
def IsHexDigit (c : Char) : Prop :=
  ('0' ≤ c ∧ c ≤ '9') ∨ ('a' ≤ c ∧ c ≤ 'f') ∨ ('A' ≤ c ∧ c ≤ 'F')

instance (c : Char) : Decidable (IsHexDigit c) :=
  inferInstanceAs (Decidable (('0' ≤ c ∧ c ≤ '9') ∨ ('a' ≤ c ∧ c ≤ 'f') ∨ ('A' ≤ c ∧ c ≤ 'F')))

theorem hexChar_eq_none_iff {c : Char} : hexChar c = none ↔ ¬ IsHexDigit c := by
  unfold hexChar IsHexDigit
  split_ifs with digit lower upper
  · simp [digit]
  · simp [lower]
  · simp [upper]
  · simp [digit, lower, upper]

theorem hexByte_eq_none_iff {pair : Char × Char} :
    hexByte pair = none ↔ ¬ IsHexDigit pair.1 ∨ ¬ IsHexDigit pair.2 := by
  rw [← hexChar_eq_none_iff, ← hexChar_eq_none_iff, hexByte]
  cases hexChar pair.1 <;> cases hexChar pair.2 <;> simp

/-- One digit is no pair. -/
theorem hexPairs_of_length_le_one {digits : List Char} (single : digits.length ≤ 1) :
    hexPairs digits = [] := by
  rcases digits with _ | ⟨first, _ | ⟨second, digits⟩⟩
  · rfl
  · rfl
  · simp at single

theorem length_le_one_of_no_pair {digits : List Char}
    (short : ∀ first second rest, digits = first :: second :: rest → False) :
    digits.length ≤ 1 := by
  rcases digits with _ | ⟨first, _ | ⟨second, digits⟩⟩
  · exact Nat.zero_le 1
  · exact Nat.le_refl 1
  · exact absurd rfl (short _ _ _)

theorem length_hexPairs (digits : List Char) : (hexPairs digits).length = digits.length / 2 := by
  fun_induction hexPairs digits with
  | case1 first second digits ih =>
      simp only [List.length_cons, ih]
      omega
  | case2 digits short =>
      have single := length_le_one_of_no_pair short
      rw [List.length_nil]
      omega

theorem getElem?_hexPairs (digits : List Char) (i : ℕ) {pair : Char × Char} :
    (hexPairs digits)[i]? = some pair ↔
      digits[2 * i]? = some pair.1 ∧ digits[2 * i + 1]? = some pair.2 := by
  fun_induction hexPairs digits generalizing i with
  | case1 first second digits ih =>
      cases i with
      | zero => simp [Prod.ext_iff]
      | succ i =>
          rw [show 2 * (i + 1) = 2 * i + 1 + 1 by omega]
          simp only [List.getElem?_cons_succ]
          exact ih i
  | case2 digits short =>
      refine iff_of_false (by simp) ?_
      rintro ⟨-, second⟩
      have single := length_le_one_of_no_pair short
      have long := (List.getElem?_eq_some_iff.mp second).1
      omega

/-- A digit without a second one makes no difference. -/
theorem hexPairs_dropLast {digits : List Char} (odd : digits.length % 2 = 1) :
    hexPairs digits.dropLast = hexPairs digits := by
  fun_induction hexPairs digits with
  | case1 first second digits ih =>
      cases digits with
      | nil => simp at odd
      | cons third digits =>
          rw [List.dropLast_cons_cons, List.dropLast_cons_cons, hexPairs, ih]
          simp only [List.length_cons] at odd ⊢
          omega
  | case2 digits short =>
      have single := length_le_one_of_no_pair short
      apply hexPairs_of_length_le_one
      rw [List.length_dropLast]
      omega

/-- The bytes of pairs, when all of them are pairs of digits. -/
def hexBytes (pairs : List (Char × Char)) : Result (List UInt8) :=
  match pairs.mapM hexByte with
  | some bytes => .ok bytes
  | none => .error (.code .hashEinval)

theorem hexBytes_cons {pair : Char × Char} {byte : UInt8} (digits : hexByte pair = some byte)
    (pairs : List (Char × Char)) :
    hexBytes (pair :: pairs) = hexBytes pairs >>= fun bytes => .ok (byte :: bytes) := by
  rw [hexBytes, hexBytes, List.mapM_cons, digits]
  cases pairs.mapM hexByte <;> rfl

theorem hexBytes_cons_none {pair : Char × Char} (noDigits : hexByte pair = none)
    (pairs : List (Char × Char)) : hexBytes (pair :: pairs) = .error (.code .hashEinval) := by
  rw [hexBytes, List.mapM_cons, noDigits]
  rfl

theorem length_of_hexBytes {pairs : List (Char × Char)} {bytes : List UInt8}
    (read : hexBytes pairs = .ok bytes) : bytes.length = pairs.length := by
  induction pairs generalizing bytes with
  | nil =>
      cases read
      rfl
  | cons pair pairs ih =>
      cases digits : hexByte pair with
      | none =>
          rw [hexBytes_cons_none digits] at read
          cases read
      | some byte =>
          rw [hexBytes_cons digits] at read
          obtain ⟨rest, later, same⟩ := Result.bind_eq_ok.mp read
          cases same
          rw [List.length_cons, List.length_cons, ih later]

/-- The only error is that of a character that is no digit. -/
theorem hexBytes_eq_error_iff {pairs : List (Char × Char)} {failure : Failure} :
    hexBytes pairs = .error failure ↔
      failure = .code .hashEinval ∧ ∃ pair ∈ pairs, hexByte pair = none := by
  induction pairs with
  | nil => simp [hexBytes]
  | cons pair pairs ih =>
      cases digits : hexByte pair with
      | none =>
          rw [hexBytes_cons_none digits]
          simp [digits, eq_comm]
      | some byte =>
          rw [hexBytes_cons digits, Result.bind_eq_error, ih]
          simp [digits]

/-! ## Decoding -/

section Run

variable {str : List Char} {len : ℕ}

theorem hexRun_nul : hexRun (nul :: str) len = [] := boundedRun_stop (by decide)

theorem hexRun_cons {c : Char} (more : 0 < len) (digit : c ≠ nul) :
    hexRun (c :: str) len = c :: hexRun str (len - 1) :=
  boundedRun_cons more (by simpa using digit)

theorem length_hexRun_le (str : List Char) (len : ℕ) : (hexRun str len).length ≤ len := by
  refine (List.takeWhile_prefix _).length_le.trans ?_
  rw [List.length_take]
  exact min_le_left _ _

/-- Two digits are read, and the rest of the input. -/
theorem hexRun_cons_cons {first second : Char} (more : ¬ len ≤ 1) (notFirst : first ≠ nul)
    (notSecond : second ≠ nul) :
    hexRun (first :: second :: str) len = first :: second :: hexRun str (len - 2) := by
  rw [hexRun_cons (by omega) notFirst, hexRun_cons (by omega) notSecond]
  rfl

/-- **What is decoded** are the pairs before the end, as many as there is room for. -/
theorem hexDecode_eq_hexBytes {max : ℕ} (readable : EndsWithin (· != nul) str len) :
    hexDecode str len max = hexBytes ((hexPairs (hexRun str len)).take max) := by
  have inside {c : Char} (digit : c ≠ nul) : (c != nul) = true := by simpa using digit
  fun_induction hexDecode str len max with
  | case1 => rfl
  | case2 str len max short =>
      have single := (length_hexRun_le str len).trans short
      rw [hexPairs_of_length_le_one single]
      rfl
  | case3 len max more => exact absurd readable.nonempty (by omega)
  | case4 len max more str =>
      rw [hexRun_nul]
      rfl
  | case5 len max more first notFirst =>
      have ended := (readable.tail (inside notFirst)).nonempty
      omega
  | case6 len max more first notFirst str =>
      rw [hexRun_cons (by omega) notFirst, hexRun_nul]
      rfl
  | case7 len max more first notFirst second str notSecond hi lo low high ih =>
      have digits : hexByte (first, second) = some (UInt8.ofNat (hi <<< 4 ||| lo)) := by
        rw [hexByte, high, low]
      rw [hexRun_cons_cons more notFirst notSecond, hexPairs, List.take_succ_cons,
        hexBytes_cons digits, ih ((readable.tail (inside notFirst)).tail (inside notSecond))]
  | case8 len max more first notFirst second str notSecond noDigits =>
      have none : hexByte (first, second) = none := by
        unfold hexByte
        split
        · rename_i hi lo high low
          exact absurd low (noDigits hi lo high)
        · rfl
      rw [hexRun_cons_cons more notFirst notSecond, hexPairs, List.take_succ_cons,
        hexBytes_cons_none none]

/-! ## Letter case -/

theorem hexChar_toLower (c : Char) : hexChar c.toLower = hexChar c := by
  by_cases upper : 65 ≤ c.val.toNat ∧ c.val.toNat ≤ 90
  · have lower := toNat_toLower upper
    have value (d : Char) : hexChar d = if 48 ≤ d.val.toNat ∧ d.val.toNat ≤ 57 then
          some (d.val.toNat - 48)
        else if 97 ≤ d.val.toNat ∧ d.val.toNat ≤ 102 then some (d.val.toNat - 97 + 10)
        else if 65 ≤ d.val.toNat ∧ d.val.toNat ≤ 70 then some (d.val.toNat - 65 + 10)
        else none := rfl
    rw [value, value, lower]
    split_ifs <;> first | omega | rfl
  · rw [toLower_of_not_upper upper]

theorem hexByte_map_toLower (pair : Char × Char) :
    hexByte (pair.map Char.toLower Char.toLower) = hexByte pair := by
  simp only [hexByte, Prod.map_fst, Prod.map_snd, hexChar_toLower]

theorem hexPairs_map (f : Char → Char) (digits : List Char) :
    hexPairs (digits.map f) = (hexPairs digits).map (Prod.map f f) := by
  fun_induction hexPairs digits with
  | case1 first second digits ih =>
      rw [List.map_cons, List.map_cons, hexPairs, ih]
      rfl
  | case2 digits short =>
      apply hexPairs_of_length_le_one
      rw [List.length_map]
      exact length_le_one_of_no_pair short

theorem toLower_eq_nul_iff {c : Char} : c.toLower = nul ↔ c = nul := by
  constructor
  · intro folded
    exact eq_of_toLower_eq folded (by decide)
  · rintro rfl
    rfl

theorem hexRun_map_toLower (str : List Char) (len : ℕ) :
    hexRun (str.map Char.toLower) len = (hexRun str len).map Char.toLower := by
  have same : (fun c => c != nul) ∘ Char.toLower = fun c => c != nul := by
    funext c
    simp [bne, toLower_eq_nul_iff]
  rw [hexRun, hexRun, boundedRun, boundedRun, ← List.map_take, List.takeWhile_map, same]

theorem hexBytes_map_toLower (pairs : List (Char × Char)) :
    hexBytes (pairs.map (Prod.map Char.toLower Char.toLower)) = hexBytes pairs := by
  have same : hexByte ∘ Prod.map Char.toLower Char.toLower = hexByte := by
    funext pair
    exact hexByte_map_toLower pair
  rw [hexBytes, List.mapM_map, same, hexBytes]

theorem endsWithin_map_toLower :
    EndsWithin (· != nul) (str.map Char.toLower) len ↔ EndsWithin (· != nul) str len := by
  simp [EndsWithin, toLower_eq_nul_iff]

/-- **The case of the letters** makes no difference. -/
theorem hexDecode_map_toLower (readable : EndsWithin (· != nul) str len) (max : ℕ) :
    hexDecode (str.map Char.toLower) len max = hexDecode str len max := by
  rw [hexDecode_eq_hexBytes (endsWithin_map_toLower.mpr readable), hexDecode_eq_hexBytes readable,
    hexRun_map_toLower, hexPairs_map, ← List.map_take, hexBytes_map_toLower]

/-! ## The limits -/

theorem endsWithin_self (text : List Char) : EndsWithin (· != nul) text text.length :=
  .inl (Nat.le_refl _)

theorem hexRun_of_not_mem {text : List Char} (terminated : nul ∉ text) :
    hexRun text text.length = text := by
  rw [hexRun, boundedRun, List.take_length, List.takeWhile_eq_self_iff]
  intro c member
  simpa using fun same : c = nul => terminated (same ▸ member)

theorem nul_not_mem_hexRun (str : List Char) (len : ℕ) : nul ∉ hexRun str len := by
  intro member
  have inside := List.mem_takeWhile_imp member
  simp at inside

/-- **A digit that is left over** is not read as anything. -/
theorem hexDecode_dropLast (readable : EndsWithin (· != nul) str len)
    (odd : (hexRun str len).length % 2 = 1) (max : ℕ) :
    hexDecode str len max =
      hexDecode (hexRun str len).dropLast (hexRun str len).dropLast.length max := by
  have noNul : nul ∉ (hexRun str len).dropLast := fun member =>
    nul_not_mem_hexRun str len (List.mem_of_mem_dropLast member)
  rw [hexDecode_eq_hexBytes readable, hexDecode_eq_hexBytes (endsWithin_self _),
    hexRun_of_not_mem noNul, hexPairs_dropLast odd]

/-- **Decoding fails** at the first pair that is not made of digits, and at nothing else. -/
theorem hexDecode_eq_error_iff {max : ℕ} {failure : Failure}
    (readable : EndsWithin (· != nul) str len) :
    hexDecode str len max = .error failure ↔ failure = .code .hashEinval ∧
      ∃ i < max, ∃ hi lo, (hexRun str len)[2 * i]? = some hi ∧
        (hexRun str len)[2 * i + 1]? = some lo ∧ (¬ IsHexDigit hi ∨ ¬ IsHexDigit lo) := by
  rw [hexDecode_eq_hexBytes readable, hexBytes_eq_error_iff]
  refine and_congr_right fun _ => ?_
  constructor
  · rintro ⟨pair, member, noByte⟩
    obtain ⟨i, held⟩ := List.mem_iff_getElem?.mp member
    have within : i < max := by
      have inArray := (List.getElem?_eq_some_iff.mp held).1
      rw [List.length_take] at inArray
      omega
    rw [List.getElem?_take_of_lt within, getElem?_hexPairs] at held
    exact ⟨i, within, pair.1, pair.2, held.1, held.2, hexByte_eq_none_iff.mp noByte⟩
  · rintro ⟨i, within, hi, lo, first, second, noDigit⟩
    refine ⟨(hi, lo), List.mem_iff_getElem?.mpr ⟨i, ?_⟩, hexByte_eq_none_iff.mpr noDigit⟩
    rw [List.getElem?_take_of_lt within]
    exact (getElem?_hexPairs _ i).mpr ⟨first, second⟩

/-- **The text in an array is decoded**, whatever follows it there. -/
theorem hexDecode_cells (buf : List UInt8) (unwritten : List Char) {capacity : ℕ}
    (whole : (hexText buf).length ≤ len) (room : buf.length ≤ capacity) :
    hexDecode (hexText buf ++ nul :: unwritten) len capacity = .ok buf := by
  have pairs : (hexPairs (hexText buf)).length = buf.length := by
    rw [length_hexPairs, length_hexText]
    omega
  have ends : ∀ c ∈ (nul :: unwritten).head?, (c != nul) = false := by
    rintro c ⟨⟩
    decide
  have all (max : ℕ) (fits : buf.length ≤ max) :
      (hexPairs (hexRun (hexText buf) (hexText buf).length)).take max = hexPairs (hexText buf) := by
    rw [hexRun_of_not_mem (nul_not_mem_hexText buf)]
    exact List.take_of_length_le (pairs.trans_le fits)
  calc hexDecode (hexText buf ++ nul :: unwritten) len capacity
      = hexBytes (hexPairs (hexText buf)) := by
        rw [hexDecode_eq_hexBytes (.inr ⟨nul, by simp, by decide⟩), hexRun,
          boundedRun_append whole ends, ← hexRun, all capacity room]
    _ = hexDecode (hexText buf) (hexText buf).length (buf.length + 1) := by
        rw [hexDecode_eq_hexBytes (endsWithin_self _), all _ (Nat.le_succ _)]
    _ = .ok buf := hexDecode_hexText buf (Nat.lt_succ_self _)

/-- `hex_decode_copy` has room for every pair. -/
theorem hexDecodeCopy_eq_hexBytes {text : Str} (terminated : nul ∉ text) :
    hexDecodeCopy text = hexBytes (hexPairs text) := by
  rw [hexDecodeCopy, hexDecode_eq_hexBytes (endsWithin_self text), hexRun_of_not_mem terminated,
    List.take_of_length_le]
  rw [length_hexPairs]
  omega

/-- **Hexadecimal text is bounded and decodes back.** An array of any size holds the text of
the bytes that fit, which is decoded to them; and of any input only the cells up to its end
are read, as pairs of digits of either case. -/
theorem hex_bounded (buf : List UInt8) (out : List Char) (room : 0 < out.length) :
    (∃ cells, hexEncode buf out out.length = .ok (cells, (cString cells).length) ∧
      nul ∈ cells ∧ ∀ len capacity, (cString cells).length ≤ len →
        min buf.length ((out.length - 1) / 2) ≤ capacity →
        hexDecode cells len capacity = .ok (buf.take (min buf.length ((out.length - 1) / 2)))) ∧
    ∀ str len capacity, EndsWithin (· != nul) str len →
      hexDecode (boundedInput (· != nul) str len) len capacity = hexDecode str len capacity ∧
      (∀ fault, hexDecode str len capacity ≠ .error (.fault fault)) ∧
      (∀ decoded, hexDecode str len capacity = .ok decoded → decoded.length ≤ capacity) ∧
      ((hexRun str len).length % 2 = 1 → hexDecode str len capacity =
        hexDecode (hexRun str len).dropLast (hexRun str len).dropLast.length capacity) ∧
      (∀ other, other.map Char.toLower = str.map Char.toLower →
        hexDecode other len capacity = hexDecode str len capacity) ∧
      ((∃ failure, hexDecode str len capacity = .error failure) ↔
        ∃ i < capacity, ∃ hi lo, (hexRun str len)[2 * i]? = some hi ∧
          (hexRun str len)[2 * i + 1]? = some lo ∧ (¬ IsHexDigit hi ∨ ¬ IsHexDigit lo)) := by
  refine ⟨?_, fun str len capacity readable => ⟨?_, ?_, ?_, ?_, ?_, ?_⟩⟩
  · obtain ⟨unwritten, encoded⟩ := hexEncode_spec buf out room (Nat.le_refl _)
    have text := @cString_append_nul _ unwritten
      (nul_not_mem_hexText (buf.take ((out.length - 1) / 2)))
    refine ⟨_, by rw [text]; exact encoded, by simp, fun len capacity whole fits => ?_⟩
    rw [text] at whole
    rw [min_comm, ← List.take_eq_take_min]
    refine hexDecode_cells _ unwritten whole ?_
    rwa [List.length_take, min_comm]
  · rw [hexDecode_eq_hexBytes readable.boundedInput, hexDecode_eq_hexBytes readable, hexRun,
      boundedRun_boundedInput, ← hexRun]
  · intro fault failed
    cases ((hexDecode_eq_error_iff readable).mp failed).1
  · intro decoded done
    rw [hexDecode_eq_hexBytes readable] at done
    rw [length_of_hexBytes done, List.length_take]
    exact min_le_left _ _
  · intro odd
    exact hexDecode_dropLast readable odd capacity
  · intro other same
    have readable' : EndsWithin (· != nul) other len := by
      rw [← endsWithin_map_toLower, same]
      exact endsWithin_map_toLower.mpr readable
    rw [← hexDecode_map_toLower readable' capacity, same, hexDecode_map_toLower readable]
  · constructor
    · rintro ⟨failure, failed⟩
      exact ((hexDecode_eq_error_iff readable).mp failed).2
    · intro bad
      exact ⟨_, (hexDecode_eq_error_iff readable).mpr ⟨rfl, bad⟩⟩

/-- Two of three bytes in five cells, with a third digit that is left over. -/
theorem hex_bounded_five_cells :
    (∃ cells, hexEncode [1, 0xab, 3] (List.replicate 6 'x') 6 = .ok (cells, (cString cells).length) ∧
      ∀ len capacity, (cString cells).length ≤ len → min 3 ((6 - 1) / 2) ≤ capacity →
        hexDecode cells len capacity = .ok [1, 0xab]) ∧
    hexDecode "aB0".toList 3 4 = hexDecode "aB".toList 2 4 ∧
    ∃ failure, hexDecode "0xff".toList 4 4 = .error failure := by
  obtain ⟨⟨cells, encoded, -, decoded⟩, every⟩ :=
    hex_bounded [1, 0xab, 3] (List.replicate 6 'x') (by decide)
  refine ⟨⟨cells, encoded, decoded⟩, ?_, ?_⟩
  · obtain ⟨-, -, -, odd, -⟩ := every "aB0".toList 3 4 (.inl (by decide))
    exact odd (by decide)
  · obtain ⟨-, -, -, -, -, fails⟩ := every "0xff".toList 4 4 (.inl (by decide))
    exact fails.mpr ⟨0, by decide, '0', 'x', rfl, rfl, .inr (by decide)⟩

end Run

end HashArchive.Hash
