import HashArchive.Deps.Base58
import HashArchive.Foundations.ByteReader

/-!
# Base 58, back and forth

The encoder and the decoder both keep a number in an array. `b58Value` is the number that
digits stand for, `bigEndian` the one that bytes stand for. The encoder writes digits of
the number of its bytes (`exists_b58enc_digits`), and the decoder writes bytes of the
number of its digits, as many as it has room for (`b58tobin_of_digits`).

So bytes that do not begin with zero are decoded to themselves exactly when the decoder has
room for as many of them (`b58tobin_of_b58enc`). How many digits there are is known when
the first bytes are (`length_eq_of_value`).
-/

set_option autoImplicit false

namespace HashArchive.Base58

/-! ## The number of some digits -/

/-- The number that base-58 digits stand for, the most significant one first. -/
def b58Value (digits : List ℕ) : ℕ := Nat.ofDigits 58 digits.reverse

/-- Entries of an array that are digits. -/
def AreDigits (digits : List ℕ) : Prop := ∀ digit ∈ digits, digit < 58

theorem AreDigits.reverse {digits : List ℕ} (small : AreDigits digits) : AreDigits digits.reverse :=
  fun digit member => small digit (List.mem_reverse.mp member)

theorem b58Value_cons (digit : ℕ) (digits : List ℕ) :
    b58Value (digit :: digits) = digit * 58 ^ digits.length + b58Value digits := by
  rw [b58Value, b58Value, List.reverse_cons, Nat.ofDigits_append, Nat.ofDigits_singleton,
    List.length_reverse]
  ring

theorem b58Value_zeros (zeros digits : List ℕ) (none : ∀ digit ∈ zeros, digit = 0) :
    b58Value (zeros ++ digits) = b58Value digits := by
  rw [b58Value, b58Value, List.reverse_append, Nat.ofDigits_append,
    ofDigits_of_zeros fun digit member => none digit (List.mem_reverse.mp member), Nat.mul_zero,
    Nat.add_zero]

theorem b58Value_lt {digits : List ℕ} (small : AreDigits digits) :
    b58Value digits < 58 ^ digits.length := by
  induction digits with
  | nil => exact Nat.one_pos
  | cons digit digits ih =>
      obtain ⟨here, later⟩ := List.forall_mem_cons.mp small
      have rest := ih later
      rw [b58Value_cons, List.length_cons, pow_succ]
      calc digit * 58 ^ digits.length + b58Value digits
          < digit * 58 ^ digits.length + 58 ^ digits.length := Nat.add_lt_add_left rest _
        _ = (digit + 1) * 58 ^ digits.length := by ring
        _ ≤ 58 * 58 ^ digits.length := Nat.mul_le_mul_right _ here
        _ = 58 ^ digits.length * 58 := Nat.mul_comm _ _

/-- **How many digits there are** is known from bounds on the number, when the first digit
is not zero. -/
theorem length_eq_of_value {digits : List ℕ} (small : AreDigits digits)
    (first : ∀ digit ∈ digits.head?, digit ≠ 0) {count : ℕ} (least : 58 ^ count ≤ b58Value digits)
    (most : b58Value digits < 58 ^ (count + 1)) : digits.length = count + 1 := by
  apply Nat.le_antisymm
  · cases digits with
    | nil => exact Nat.zero_le _
    | cons digit digits =>
        have positive := Nat.pos_of_ne_zero (first digit rfl)
        rw [b58Value_cons] at most
        have power : 58 ^ digits.length < 58 ^ (count + 1) :=
          (Nat.le_add_right_of_le (Nat.le_mul_of_pos_left _ positive)).trans_lt most
        exact (Nat.pow_lt_pow_iff_right (by decide)).mp power
  · have power := least.trans_lt (b58Value_lt small)
    exact (Nat.pow_lt_pow_iff_right (by decide)).mp power

/-- How many digits there are of a number whose first bytes are known. -/
theorem length_eq_of_code {digits : List ℕ} (small : AreDigits digits)
    (first : ∀ digit ∈ digits.head?, digit ≠ 0) {code : ℕ} {rest : List UInt8}
    (value : b58Value digits = code * 256 ^ rest.length + bigEndian rest) {count : ℕ}
    (least : 58 ^ count ≤ code * 256 ^ rest.length)
    (most : (code + 1) * 256 ^ rest.length ≤ 58 ^ (count + 1)) : digits.length = count + 1 := by
  apply length_eq_of_value small first
  · rw [value]
    exact Nat.le_add_right_of_le least
  · calc b58Value digits = code * 256 ^ rest.length + bigEndian rest := value
      _ < code * 256 ^ rest.length + 256 ^ rest.length := Nat.add_lt_add_left (bigEndian_lt rest) _
      _ = (code + 1) * 256 ^ rest.length := (Nat.succ_mul _ _).symm
      _ ≤ 58 ^ (count + 1) := most

/-! ## The encoder -/

/-- The character of a digit. -/
def digitChar (digit : ℕ) : Char := b58digitsOrdered.getD digit nul

/-- **What the encoder writes** for bytes that do not begin with zero: digits of their number
that do not begin with zero. -/
theorem exists_b58enc_digits {b58sz : ℕ} {bin : List UInt8} (first : bin.takeWhile (· == 0) = [])
    (room : bin.length * 138 / 100 + 1 < b58sz) :
    ∃ digits, AreDigits digits ∧ (∀ digit ∈ digits.head?, digit ≠ 0) ∧
      b58Value digits = bigEndian bin ∧
      b58enc b58sz bin = .ok (some (digits.map digitChar, digits.length + 1)) := by
  have zeros : ∀ digit ∈ List.replicate (bin.length * 138 / 100 + 1) 0, digit = 0 :=
    fun _ => List.eq_of_mem_replicate
  have start : Nat.ofDigits 58 (List.replicate (bin.length * 138 / 100 + 1) 0) = 0 :=
    ofDigits_of_zeros zeros
  have fits : (Nat.ofDigits 58 (List.replicate (bin.length * 138 / 100 + 1) 0) + 1) *
      256 ^ bin.length ≤ 58 ^ (List.replicate (bin.length * 138 / 100 + 1) 0).length := by
    rw [start, Nat.zero_add, Nat.one_mul, List.length_replicate]
    exact pow_bytes_le _
  obtain ⟨buf, done, size, value, digits⟩ := exists_b58encLoop bin 0 _
    (fun digit member => zeros digit (List.mem_of_mem_drop member)) (Nat.zero_le _) fits
  have small : AreDigits buf :=
    digits fun digit member => zeros digit member ▸ (by decide : 0 < 58)
  rw [start, Nat.zero_mul, Nat.zero_add] at value
  rw [List.length_replicate] at size
  have split := List.takeWhile_append_dropWhile (p := (· == 0)) (l := buf.reverse)
  have rest : buf.reverse.drop (buf.reverse.takeWhile (· == 0)).length =
      buf.reverse.dropWhile (· == 0) :=
    calc buf.reverse.drop (buf.reverse.takeWhile (· == 0)).length
        = (buf.reverse.takeWhile (· == 0) ++ buf.reverse.dropWhile (· == 0)).drop
            (buf.reverse.takeWhile (· == 0)).length := by rw [split]
      _ = buf.reverse.dropWhile (· == 0) := List.drop_left
  refine ⟨buf.reverse.dropWhile (· == 0), ?_, ?_, ?_, ?_⟩
  · exact fun digit member => small.reverse digit ((List.dropWhile_sublist _).subset member)
  · intro digit head
    have outside := List.head?_dropWhile_not (· == 0) buf.reverse
    rw [Option.mem_def.mp head] at outside
    exact fun zero => by simp [zero] at outside
  · have whole := b58Value_zeros (buf.reverse.takeWhile (· == 0)) (buf.reverse.dropWhile (· == 0))
      fun digit member => by simpa using List.mem_takeWhile_imp member
    rw [split, b58Value, List.reverse_reverse, value] at whole
    exact whole.symm
  · have length : (buf.reverse.dropWhile (· == 0)).length =
        bin.length * 138 / 100 + 1 - (buf.reverse.takeWhile (· == 0)).length := by
      rw [← rest, List.length_drop, List.length_reverse, size]
    simp only [b58enc, first, List.length_nil, Nat.sub_zero, List.drop_zero, done, Result.ok_bind,
      rest, length]
    rw [if_neg (by omega)]
    simp [digitChar]

/-! ## The decoder -/

/-- Entries of an array that are words. -/
def AreWords (words : List ℕ) : Prop := ∀ word ∈ words, word < 2 ^ 32

theorem low_word (t : ℕ) : t &&& 0xffffffff = t % 2 ^ 32 := Nat.and_two_pow_sub_one_eq_mod t 32

theorem high_word {t : ℕ} (small : t < 2 ^ 38) : (t &&& 0x3f00000000) >>> 32 = t / 2 ^ 32 := by
  have mask : 0x3f00000000 >>> 32 = 2 ^ 6 - 1 := by decide
  rw [Nat.shiftRight_and_distrib, mask, Nat.and_two_pow_sub_one_eq_mod, Nat.shiftRight_eq_div_pow,
    Nat.mod_eq_of_lt]
  exact Nat.div_lt_of_lt_mul small

/-- **One digit**: the inner loop multiplies the number by 58 and adds the digit; what does
not fit is the carry. -/
theorem value_b58MulAdd {words : List ℕ} (small : AreWords words) {c : ℕ} (digit : c < 58) :
    AreWords (b58MulAdd words c).1 ∧ (b58MulAdd words c).2 < 58 ∧
      Nat.ofDigits (2 ^ 32) (b58MulAdd words c).1 + (b58MulAdd words c).2 * (2 ^ 32) ^ words.length =
        Nat.ofDigits (2 ^ 32) words * 58 + c := by
  induction words generalizing c with
  | nil => exact ⟨small, digit, by simp [b58MulAdd]⟩
  | cons word words ih =>
      obtain ⟨here, later⟩ := List.forall_mem_cons.mp small
      have product : word * 58 + c < 58 * 2 ^ 32 := by omega
      have carry := high_word (show word * 58 + c < 2 ^ 38 by omega)
      obtain ⟨restSmall, restCarry, value⟩ := ih later (show (word * 58 + c) / 2 ^ 32 < 58 by omega)
      rw [b58MulAdd, low_word, carry]
      refine ⟨List.forall_mem_cons.mpr ⟨Nat.mod_lt _ (by decide), restSmall⟩, restCarry, ?_⟩
      dsimp only
      rw [Nat.ofDigits_cons, Nat.ofDigits_cons, List.length_cons, pow_succ]
      have parts := Nat.mod_add_div (word * 58 + c) (2 ^ 32)
      calc (word * 58 + c) % 2 ^ 32 +
            2 ^ 32 * Nat.ofDigits (2 ^ 32) (b58MulAdd words ((word * 58 + c) / 2 ^ 32)).1 +
            (b58MulAdd words ((word * 58 + c) / 2 ^ 32)).2 * ((2 ^ 32) ^ words.length * 2 ^ 32)
          = (word * 58 + c) % 2 ^ 32 + 2 ^ 32 *
              (Nat.ofDigits (2 ^ 32) (b58MulAdd words ((word * 58 + c) / 2 ^ 32)).1 +
              (b58MulAdd words ((word * 58 + c) / 2 ^ 32)).2 * (2 ^ 32) ^ words.length) := by ring
        _ = (word * 58 + c) % 2 ^ 32 + 2 ^ 32 *
              (Nat.ofDigits (2 ^ 32) words * 58 + (word * 58 + c) / 2 ^ 32) := by rw [value]
        _ = (word * 58 + c) % 2 ^ 32 + 2 ^ 32 * ((word * 58 + c) / 2 ^ 32) +
              2 ^ 32 * Nat.ofDigits (2 ^ 32) words * 58 := by ring
        _ = (word + 2 ^ 32 * Nat.ofDigits (2 ^ 32) words) * 58 + c := by rw [parts]; ring

theorem b58Digit_digitChar : ∀ digit < 58, b58Digit (digitChar digit) = some digit := by decide

/-- `zeromask` of `b58tobin`. -/
def zeromask (binsz : ℕ) : ℕ :=
  if binsz % 4 ≠ 0 then (0xffffffff <<< (binsz % 4 * 8)) &&& 0xffffffff else 0

/-- A mask of higher bits finds none. -/
theorem and_higher_eq_zero {top width : ℕ} (small : top < 2 ^ width) (mask bits : ℕ) :
    top &&& ((mask <<< width) &&& bits) = 0 := by
  apply Nat.eq_of_testBit_eq
  intro index
  rw [Nat.testBit_and, Nat.testBit_and, Nat.testBit_shiftLeft, Nat.zero_testBit]
  rcases Nat.lt_or_ge index width with low | high
  · simp [Nat.not_le.mpr low]
  · rw [Nat.testBit_lt_two_pow (small.trans_le (Nat.pow_le_pow_right (by decide) high)),
      Bool.false_and]

theorem word_power : (256 : ℕ) ^ 4 = 2 ^ 32 := by norm_num

/-- The most significant word of a number that fits is not filled too far. -/
theorem top_lt {binsz top : ℕ} {words : List ℕ} (partly : binsz % 4 ≠ 0)
    (length : (words ++ [top]).length = (binsz + 3) / 4)
    (fits : Nat.ofDigits (2 ^ 32) (words ++ [top]) < 256 ^ binsz) : top < 256 ^ (binsz % 4) := by
  rw [List.length_append, List.length_singleton] at length
  have size : binsz = 4 * words.length + binsz % 4 := by omega
  have powers : 256 ^ binsz = (2 ^ 32) ^ words.length * 256 ^ (binsz % 4) := by
    conv_lhs => rw [size, pow_add, pow_mul, word_power]
  rw [Nat.ofDigits_append, Nat.ofDigits_singleton, powers] at fits
  exact Nat.lt_of_mul_lt_mul_left ((Nat.le_add_left _ _).trans_lt fits)

theorem and_zeromask_eq_zero {binsz top : ℕ} {words : List ℕ}
    (length : (words ++ [top]).length = (binsz + 3) / 4)
    (fits : Nat.ofDigits (2 ^ 32) (words ++ [top]) < 256 ^ binsz) : top &&& zeromask binsz = 0 := by
  unfold zeromask
  split_ifs with partly
  · refine and_higher_eq_zero ?_ _ _
    rw [Nat.mul_comm, pow_mul]
    exact top_lt partly length fits
  · exact Nat.and_zero top

/-- **A run of digits** is decoded when their number fits. -/
theorem exists_b58tobinLoop_of_fits {binsz : ℕ} (room : 0 < binsz) {digits words : List ℕ}
    (small : AreDigits digits) (smallWords : AreWords words)
    (length : words.length = (binsz + 3) / 4)
    (fits : Nat.ofDigits (2 ^ 32) words * 58 ^ digits.length + b58Value digits < 256 ^ binsz) :
    ∃ after, b58tobinLoop (zeromask binsz) (digits.map digitChar) words = .ok (some after) ∧
      AreWords after ∧ after.length = words.length ∧ Nat.ofDigits (2 ^ 32) after =
        Nat.ofDigits (2 ^ 32) words * 58 ^ digits.length + b58Value digits := by
  induction digits generalizing words with
  | nil => exact ⟨words, rfl, smallWords, rfl, by simp [b58Value]⟩
  | cons digit digits ih =>
      obtain ⟨here, later⟩ := List.forall_mem_cons.mp small
      have split : Nat.ofDigits (2 ^ 32) words * 58 ^ (digit :: digits).length +
          b58Value (digit :: digits) =
          (Nat.ofDigits (2 ^ 32) words * 58 + digit) * 58 ^ digits.length + b58Value digits := by
        rw [b58Value_cons, List.length_cons, pow_succ]
        ring
      rw [split] at fits ⊢
      obtain ⟨wordsAfter, -, value⟩ := value_b58MulAdd smallWords here
      have size := length_b58MulAdd words digit
      have one : Nat.ofDigits (2 ^ 32) words * 58 + digit < 256 ^ binsz :=
        ((Nat.le_mul_of_pos_right _ (Nat.pow_pos (by decide))).trans
          (Nat.le_add_right _ _)).trans_lt fits
      have wide : 256 ^ binsz ≤ (2 ^ 32) ^ words.length := by
        rw [← word_power, ← pow_mul, length]
        exact Nat.pow_le_pow_right (by decide) (by omega)
      have noCarry : (b58MulAdd words digit).2 = 0 := by
        by_contra carry
        have least := Nat.le_mul_of_pos_left ((2 ^ 32) ^ words.length) (Nat.pos_of_ne_zero carry)
        omega
      rw [noCarry, Nat.zero_mul, Nat.add_zero] at value
      obtain ⟨front, top, whole⟩ : ∃ front top, (b58MulAdd words digit).1 = front ++ [top] := by
        apply (List.eq_nil_or_concat' _).resolve_left
        intro empty
        rw [empty, length, List.length_nil] at size
        omega
      have masked : top &&& zeromask binsz = 0 := by
        refine @and_zeromask_eq_zero binsz top front ?_ ?_
        · rw [← whole, size, length]
        · rwa [← whole, value]
      rw [← value] at fits ⊢
      obtain ⟨after, decoded, smallAfter, same, total⟩ := ih later wordsAfter (by rw [size, length]) fits
      refine ⟨after, ?_, smallAfter, same.trans size, total⟩
      rw [List.map_cons, b58tobinLoop, b58Digit_digitChar digit here]
      simp only [noCarry, whole, List.getLast?_concat, masked]
      rwa [whole] at decoded

/-! ## The bytes that are written -/

theorem byte_of_mask (word shift : ℕ) : (word &&& (0xff <<< shift)) >>> shift = word / 2 ^ shift % 256 := by
  have mask : (0xff <<< shift) >>> shift = 2 ^ 8 - 1 := Nat.shiftLeft_shiftRight 0xff shift
  rw [Nat.shiftRight_and_distrib, mask, Nat.and_two_pow_sub_one_eq_mod, Nat.shiftRight_eq_div_pow]

theorem byte_of_shift (word shift : ℕ) : word >>> shift &&& 0xff = word / 2 ^ shift % 256 := by
  rw [show 0xff = 2 ^ 8 - 1 by decide, Nat.and_two_pow_sub_one_eq_mod, Nat.shiftRight_eq_div_pow]

theorem bigEndian_b58WordBytes {word : ℕ} (small : word < 2 ^ 32) :
    bigEndian (b58WordBytes word) = word := by
  simp only [b58WordBytes, byte_of_shift, bigEndian, List.foldl_cons, List.foldl_nil,
    UInt8.toNat_ofNat']
  omega

theorem bigEndian_b58TopBytes {bytesleft word : ℕ} (partly : bytesleft ≠ 0) (few : bytesleft < 4)
    (small : word < 256 ^ bytesleft) :
    bigEndian (b58TopBytes bytesleft word) = word := by
  have low : word &&& 0xff = word % 256 := Nat.and_two_pow_sub_one_eq_mod word 8
  have middle : (word &&& 0xff00) >>> 8 = word / 256 % 256 := byte_of_mask word 8
  have high : (word &&& 0xff0000) >>> 16 = word / 65536 % 256 := byte_of_mask word 16
  have three : bytesleft = 1 ∨ bytesleft = 2 ∨ bytesleft = 3 := by omega
  rcases three with rfl | rfl | rfl <;>
    simp only [b58TopBytes, low, middle, high, bigEndian, List.foldl_cons, List.foldl_nil,
      UInt8.toNat_ofNat'] <;> omega

/-- The bytes of words, from the most significant one on. -/
theorem bigEndian_flatMap {words : List ℕ} (small : AreWords words) :
    bigEndian (words.flatMap b58WordBytes) = Nat.ofDigits (2 ^ 32) words.reverse := by
  induction words with
  | nil => rfl
  | cons word words ih =>
      obtain ⟨here, later⟩ := List.forall_mem_cons.mp small
      rw [List.flatMap_cons, bigEndian_append, bigEndian_b58WordBytes here, ih later,
        length_flatMap_b58WordBytes, List.reverse_cons, Nat.ofDigits_append, Nat.ofDigits_singleton,
        List.length_reverse, pow_mul, word_power]
      ring

/-- **The bytes that are written** are those of the number in the array, when it fits. -/
theorem bigEndian_b58Bytes {binsz : ℕ} {words : List ℕ} (small : AreWords words)
    (length : words.length = (binsz + 3) / 4) (fits : Nat.ofDigits (2 ^ 32) words < 256 ^ binsz) :
    bigEndian (b58Bytes (binsz % 4) words.reverse) = Nat.ofDigits (2 ^ 32) words := by
  rcases List.eq_nil_or_concat' words with rfl | ⟨front, top, rfl⟩
  · rfl
  have words := (List.forall_mem_append.mp small).1
  have last := small top (List.mem_append_right _ List.mem_cons_self)
  have reversed : AreWords front.reverse := fun word member => words word (List.mem_reverse.mp member)
  have value : Nat.ofDigits (2 ^ 32) (front ++ [top]) =
      top * 256 ^ (front.reverse.flatMap b58WordBytes).length +
        bigEndian (front.reverse.flatMap b58WordBytes) := by
    rw [bigEndian_flatMap reversed, List.reverse_reverse, length_flatMap_b58WordBytes,
      List.length_reverse, pow_mul, word_power, Nat.ofDigits_append, Nat.ofDigits_singleton]
    ring
  rw [value, List.reverse_append, List.reverse_singleton, List.singleton_append, b58Bytes]
  split_ifs with whole
  · rw [List.flatMap_cons, bigEndian_append, bigEndian_b58WordBytes last]
  · rw [bigEndian_append,
      bigEndian_b58TopBytes whole (Nat.mod_lt _ (by decide)) (top_lt whole length fits)]

/-! ## Back and forth -/

theorem digitChar_ne_one : ∀ digit < 58, digit ≠ 0 → digitChar digit ≠ '1' := by decide

/-- **What the decoder writes**: the bytes of the number of the digits, as many as it has room
for. -/
theorem exists_b58tobin_of_digits {binsz : ℕ} (room : 0 < binsz) {digits : List ℕ}
    (small : AreDigits digits) (first : ∀ digit ∈ digits.head?, digit ≠ 0)
    (fits : b58Value digits < 256 ^ binsz) :
    ∃ bin, b58tobin binsz (digits.map digitChar) =
        .ok (some (bin, binsz - (bin.takeWhile (· == 0)).length)) ∧
      bin.length = binsz ∧ bigEndian bin = b58Value digits := by
  have ones : (digits.map digitChar).takeWhile (· == '1') = [] := by
    cases digits with
    | nil => rfl
    | cons digit digits =>
        have other := digitChar_ne_one digit (small digit List.mem_cons_self) (first digit rfl)
        exact List.takeWhile_cons_of_neg (by simpa using other)
  have start : Nat.ofDigits (2 ^ 32) (List.replicate ((binsz + 3) / 4) 0) = 0 :=
    ofDigits_of_zeros fun _ => List.eq_of_mem_replicate
  have zeros : AreWords (List.replicate ((binsz + 3) / 4) 0) :=
    fun word member => List.eq_of_mem_replicate member ▸ (by decide : 0 < 2 ^ 32)
  obtain ⟨after, decoded, smallAfter, length, value⟩ := exists_b58tobinLoop_of_fits room small zeros
    List.length_replicate (by rwa [start, Nat.zero_mul, Nat.zero_add])
  rw [start, Nat.zero_mul, Nat.zero_add] at value
  rw [List.length_replicate] at length
  rw [zeromask] at decoded
  refine ⟨b58Bytes (binsz % 4) after.reverse, ?_, length_b58Bytes (by rwa [List.length_reverse]), ?_⟩
  · simp only [b58tobin, ones, List.length_nil, List.drop_zero, decoded, Result.ok_bind,
      Nat.add_zero]
  · rw [bigEndian_b58Bytes smallAfter length (value ▸ fits), value]

/-- **Bytes that do not begin with zero are decoded to themselves** when the decoder has room
for exactly as many. -/
theorem b58tobin_of_b58enc {b58sz : ℕ} {bin : List UInt8} (nonempty : bin ≠ [])
    (first : bin.takeWhile (· == 0) = []) (room : bin.length * 138 / 100 + 1 < b58sz) :
    ∃ digits, AreDigits digits ∧ (∀ digit ∈ digits.head?, digit ≠ 0) ∧
      b58Value digits = bigEndian bin ∧
      b58enc b58sz bin = .ok (some (digits.map digitChar, digits.length + 1)) ∧
      b58tobin bin.length (digits.map digitChar) = .ok (some (bin, bin.length)) := by
  obtain ⟨digits, small, leading, value, encoded⟩ := exists_b58enc_digits first room
  have fits : b58Value digits < 256 ^ bin.length := value ▸ bigEndian_lt bin
  obtain ⟨decodedBytes, decoded, length, same⟩ :=
    exists_b58tobin_of_digits (List.length_pos_iff.mpr nonempty) small leading fits
  obtain rfl := eq_of_bigEndian_eq length (same.trans value)
  rw [first, List.length_nil, Nat.sub_zero] at decoded
  exact ⟨digits, small, leading, value, encoded, decoded⟩

end HashArchive.Base58
