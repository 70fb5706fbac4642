import HashArchive.Foundations.ByteReader
import HashArchive.Foundations.CProgram
import Mathlib.Data.Nat.Digits.Defs
import Mathlib.Algebra.Order.Ring.Nat
import Mathlib.Tactic.Ring
import Mathlib.Tactic.Linarith

/-!
# Base 58

`b58tobin` and `b58enc` of `deps/libbase58`, the codec behind multihash links.

The decoder keeps a number in 32-bit words and multiplies it by 58 for every
digit; the encoder keeps a number in base-58 digits and multiplies it by 256 for
every byte. Both arrays are lists with the least significant entry first, so
that the inner loops, which run from the end of the array to its start, are
recursions on the list.

The inner loop of the encoder is bounded by the value of the carry and not by
the size of the array. `exists_b58encLoop` shows that the array of `b58enc` is
large enough for it (`pow_bytes_le`), and `exists_b58enc` that the call succeeds
in a buffer with room for the array.

The decoder writes all the bytes it has room for, but reports the number of them
after the leading zeros, and one more for every leading `1` (`b58tobin_eq_some`).
-/

set_option autoImplicit false

namespace HashArchive.Base58

/-! ## The alphabet -/

/-- `b58digits_ordered`. -/
def b58digitsOrdered : Str :=
  "123456789ABCDEFGHJKLMNPQRSTUVWXYZabcdefghijkmnopqrstuvwxyz".toList

/-- `b58digits_map`. -/
def b58digitsMap : List ℤ := [
  -1, -1, -1, -1, -1, -1, -1, -1, -1, -1, -1, -1, -1, -1, -1, -1,
  -1, -1, -1, -1, -1, -1, -1, -1, -1, -1, -1, -1, -1, -1, -1, -1,
  -1, -1, -1, -1, -1, -1, -1, -1, -1, -1, -1, -1, -1, -1, -1, -1,
  -1, 0, 1, 2, 3, 4, 5, 6, 7, 8, -1, -1, -1, -1, -1, -1,
  -1, 9, 10, 11, 12, 13, 14, 15, 16, -1, 17, 18, 19, 20, 21, -1,
  22, 23, 24, 25, 26, 27, 28, 29, 30, 31, 32, -1, -1, -1, -1, -1,
  -1, 33, 34, 35, 36, 37, 38, 39, 40, 41, 42, 43, -1, 44, 45, 46,
  47, 48, 49, 50, 51, 52, 53, 54, 55, 56, 57, -1, -1, -1, -1, -1]

/-- The value of a digit; `none` where `b58tobin` finds the digit invalid. -/
def b58Digit (c : Char) : Option ℕ :=
  if c.toNat &&& 0x80 ≠ 0 then none
  else if b58digitsMap.getD c.toNat (-1) = -1 then none
  else some (b58digitsMap.getD c.toNat (-1)).toNat

/-! ## Decoding -/

/-- The inner loop of `b58tobin`: the words times 58 plus `c`, and the carry out
of the last of them. -/
def b58MulAdd : List ℕ → ℕ → List ℕ × ℕ
  | [], c => ([], c)
  | word :: outi, c =>
    let t := word * 58 + c
    let (outi, c) := b58MulAdd outi ((t &&& 0x3f00000000) >>> 32)
    ((t &&& 0xffffffff) :: outi, c)

/-- The digits of `b58tobin` from the first that is not a `1` on; `none` when it
returns false. -/
def b58tobinLoop (zeromask : ℕ) : Str → List ℕ → Result (Option (List ℕ))
  | [], outi => .ok (some outi)
  | char :: b58, outi =>
    match b58Digit char with
    | none => .ok none
    | some c =>
      let (outi, c) := b58MulAdd outi c
      if c ≠ 0 then .ok none else
      match outi.getLast? with
      | none => .error (.fault .outOfBounds)
      | some top => if top &&& zeromask ≠ 0 then .ok none else b58tobinLoop zeromask b58 outi

/-- The bytes of the most significant word when it holds less than four. -/
def b58TopBytes (bytesleft word : ℕ) : List UInt8 :=
  match bytesleft with
  | 3 => [UInt8.ofNat ((word &&& 0xff0000) >>> 16), UInt8.ofNat ((word &&& 0xff00) >>> 8),
      UInt8.ofNat (word &&& 0xff)]
  | 2 => [UInt8.ofNat ((word &&& 0xff00) >>> 8), UInt8.ofNat (word &&& 0xff)]
  | 1 => [UInt8.ofNat (word &&& 0xff)]
  | _ => []

/-- The bytes of a word. -/
def b58WordBytes (word : ℕ) : List UInt8 :=
  [UInt8.ofNat (word >>> 0x18 &&& 0xff), UInt8.ofNat (word >>> 0x10 &&& 0xff),
    UInt8.ofNat (word >>> 8 &&& 0xff), UInt8.ofNat (word >>> 0 &&& 0xff)]

/-- The bytes `b58tobin` writes, from words with the most significant first. -/
def b58Bytes (bytesleft : ℕ) : List ℕ → List UInt8
  | [] => []
  | top :: rest =>
    if bytesleft = 0 then (top :: rest).flatMap b58WordBytes
    else b58TopBytes bytesleft top ++ rest.flatMap b58WordBytes

/-- `b58tobin` of a string that is not empty: the bytes it writes and the size
it reports; `none` when it returns false. -/
def b58tobin (binsz : ℕ) (b58 : Str) : Result (Option (List UInt8 × ℕ)) := do
  let outisz := (binsz + 3) / 4
  let bytesleft := binsz % 4
  let zeromask := if bytesleft ≠ 0 then (0xffffffff <<< (bytesleft * 8)) &&& 0xffffffff else 0
  -- Leading zeros, just count
  let zerocount := (b58.takeWhile (· == '1')).length
  match ← b58tobinLoop zeromask (b58.drop zerocount) (List.replicate outisz 0) with
  | none => .ok none
  | some outi =>
    let bin := b58Bytes bytesleft outi.reverse
    -- Count canonical base58 byte count
    let leading := (bin.takeWhile (· == 0)).length
    .ok (some (bin, binsz - leading + zerocount))

/-! ## Encoding -/

/-- The inner loop of `b58enc` from the entry at position `l` on. It goes on over
the entries that were touched before and then for as long as there is a carry;
the second value is the position it stops at. -/
def b58Carry (touched : ℕ) : List ℕ → ℕ → ℕ → Result (List ℕ × ℕ)
  | [], l, carry =>
    if l < touched ∨ carry ≠ 0 then .error (.fault .outOfBounds) else .ok ([], l)
  | digit :: buf, l, carry =>
    if l < touched ∨ carry ≠ 0 then do
      let carry := carry + 256 * digit
      let (buf, high) ← b58Carry touched buf (l + 1) (carry / 58)
      .ok (carry % 58 :: buf, high)
    else .ok (digit :: buf, l)

/-- The outer loop of `b58enc`. -/
def b58encLoop : List UInt8 → ℕ → List ℕ → Result (List ℕ)
  | [], _, buf => .ok buf
  | byte :: bin, high, buf => do
    let (buf, high) ← b58Carry high buf 0 byte.toNat
    b58encLoop bin high buf

/-- `b58enc`: the string it writes and the size it reports; `none` when the
buffer of `b58sz` characters is too small. -/
def b58enc (b58sz : ℕ) (bin : List UInt8) : Result (Option (Str × ℕ)) := do
  let zcount := (bin.takeWhile (· == 0)).length
  let size := (bin.length - zcount) * 138 / 100 + 1
  let buf ← b58encLoop (bin.drop zcount) 0 (List.replicate size 0)
  let j := (buf.reverse.takeWhile (· == 0)).length
  if b58sz ≤ zcount + size - j then .ok none
  else
    let digits := (buf.reverse.drop j).map (b58digitsOrdered.getD · nul)
    .ok (some (List.replicate zcount '1' ++ digits, zcount + (size - j) + 1))

/-! ## What the decoder writes -/

theorem length_b58MulAdd (outi : List ℕ) (c : ℕ) : (b58MulAdd outi c).1.length = outi.length := by
  induction outi generalizing c with
  | nil => rfl
  | cons word outi ih => simp [b58MulAdd, ih]

theorem length_of_b58tobinLoop {zeromask : ℕ} {b58 : Str} {outi after : List ℕ}
    (done : b58tobinLoop zeromask b58 outi = .ok (some after)) : after.length = outi.length := by
  induction b58 generalizing outi with
  | nil =>
      cases done
      rfl
  | cons char b58 ih =>
      unfold b58tobinLoop at done
      cases digit : b58Digit char with
      | none =>
          rw [digit] at done
          cases done
      | some c =>
          simp only [digit] at done
          split_ifs at done
          · cases done
          · split at done
            · cases done
            · split_ifs at done
              · cases done
              · rw [ih done, length_b58MulAdd]

/-- An array that is not empty is not left. -/
theorem exists_b58tobinLoop (zeromask : ℕ) (b58 : Str) {outi : List ℕ} (room : outi ≠ []) :
    ∃ outcome, b58tobinLoop zeromask b58 outi = .ok outcome := by
  induction b58 generalizing outi with
  | nil => exact ⟨some outi, rfl⟩
  | cons char b58 ih =>
      unfold b58tobinLoop
      cases b58Digit char with
      | none => exact ⟨none, rfl⟩
      | some c =>
          have stays : (b58MulAdd outi c).1 ≠ [] := by
            rw [← List.length_pos_iff, length_b58MulAdd]
            exact List.length_pos_iff.mpr room
          simp only [List.getLast?_eq_some_getLast stays]
          split_ifs
          · exact ⟨none, rfl⟩
          · exact ⟨none, rfl⟩
          · exact ih stays

theorem length_flatMap_b58WordBytes (outi : List ℕ) :
    (outi.flatMap b58WordBytes).length = 4 * outi.length := by
  induction outi with
  | nil => rfl
  | cons word outi ih =>
      rw [List.flatMap_cons, List.length_append, ih, List.length_cons]
      simp [b58WordBytes]
      omega

/-- The words of an array are written as the bytes it stands for. -/
theorem length_b58Bytes {binsz : ℕ} {outi : List ℕ} (size : outi.length = (binsz + 3) / 4) :
    (b58Bytes (binsz % 4) outi).length = binsz := by
  cases outi with
  | nil =>
      rw [List.length_nil] at size
      rw [b58Bytes, List.length_nil]
      omega
  | cons top rest =>
      rw [List.length_cons] at size
      rw [b58Bytes]
      split
      · rw [length_flatMap_b58WordBytes, List.length_cons]
        omega
      · have topBytes : (b58TopBytes (binsz % 4) top).length = binsz % 4 := by
          have three : binsz % 4 = 1 ∨ binsz % 4 = 2 ∨ binsz % 4 = 3 := by omega
          rcases three with same | same | same <;> rw [same] <;> rfl
        rw [List.length_append, topBytes, length_flatMap_b58WordBytes]
        omega

/-- With room for a byte, a call ends in bounds. -/
theorem exists_b58tobin {binsz : ℕ} (b58 : Str) (room : 0 < binsz) :
    ∃ outcome, b58tobin binsz b58 = .ok outcome := by
  have array : List.replicate ((binsz + 3) / 4) 0 ≠ [] := by
    rw [← List.length_pos_iff, List.length_replicate]
    omega
  obtain ⟨outcome, looped⟩ := exists_b58tobinLoop
    (if binsz % 4 ≠ 0 then (0xffffffff <<< (binsz % 4 * 8)) &&& 0xffffffff else 0)
    (b58.drop (b58.takeWhile (· == '1')).length) array
  unfold b58tobin
  dsimp only
  rw [looped, Result.ok_bind]
  cases outcome with
  | none => exact ⟨none, rfl⟩
  | some outi => exact ⟨_, rfl⟩

/-- **What a successful call writes and reports.** -/
theorem b58tobin_eq_some {binsz size : ℕ} {b58 : Str} {bin : List UInt8}
    (done : b58tobin binsz b58 = .ok (some (bin, size))) :
    bin.length = binsz ∧ size = binsz - (bin.takeWhile (· == 0)).length +
      (b58.takeWhile (· == '1')).length := by
  obtain ⟨words, looped, done⟩ := Result.bind_eq_ok.mp done
  cases words with
  | none => cases done
  | some outi =>
      cases done
      refine ⟨length_b58Bytes ?_, rfl⟩
      rw [List.length_reverse, length_of_b58tobinLoop looped, List.length_replicate]

/-! ## The encoder stays in its array -/

theorem ofDigits_of_zeros {base : ℕ} {digits : List ℕ} (zeros : ∀ digit ∈ digits, digit = 0) :
    Nat.ofDigits base digits = 0 := by
  induction digits with
  | nil => rfl
  | cons digit digits ih =>
      rw [Nat.ofDigits_cons, ih fun other member => zeros other (List.mem_cons_of_mem _ member),
        zeros digit List.mem_cons_self]
      simp

/-- What is left of the room after one entry. -/
theorem carry_lt {digit value carry power : ℕ}
    (room : (digit + 58 * value) * 256 + carry < power * 58) :
    value * 256 + (carry + 256 * digit) / 58 < power := by
  have quotient := Nat.div_mul_le_self (carry + 256 * digit) 58
  generalize (carry + 256 * digit) / 58 = next at quotient ⊢
  have scaled : (value * 256 + next) * 58 < power * 58 := by linarith
  exact Nat.lt_of_mul_lt_mul_right scaled

/-- **One byte**: the inner loop multiplies the number by 256 and adds the carry,
when the array has room for the result and is zero where it has not been touched. -/
theorem exists_b58Carry {touched : ℕ} (buf : List ℕ) (l carry : ℕ)
    (untouched : ∀ digit ∈ buf.drop (touched - l), digit = 0) (bound : touched ≤ l + buf.length)
    (room : Nat.ofDigits 58 buf * 256 + carry < 58 ^ buf.length) :
    ∃ after high, b58Carry touched buf l carry = .ok (after, high) ∧ after.length = buf.length ∧
      Nat.ofDigits 58 after = Nat.ofDigits 58 buf * 256 + carry ∧
      l ≤ high ∧ high ≤ l + buf.length ∧ ∀ digit ∈ after.drop (high - l), digit = 0 := by
  induction buf generalizing l carry with
  | nil =>
      have none : carry = 0 := by simpa using room
      have reached : ¬ l < touched := by simpa using bound
      exact ⟨[], l, by simp [b58Carry, none, reached], rfl, by simp [none], le_refl l, by simp,
        by simp⟩
  | cons digit buf ih =>
      rw [Nat.ofDigits_cons, List.length_cons, pow_succ] at room
      by_cases continues : l < touched ∨ carry ≠ 0
      · have smaller : Nat.ofDigits 58 buf * 256 + (carry + 256 * digit) / 58 < 58 ^ buf.length :=
          carry_lt (by simpa using room)
        have rest : ∀ other ∈ buf.drop (touched - (l + 1)), other = 0 := by
          intro other member
          by_cases started : l < touched
          · apply untouched other
            rw [show touched - l = touched - (l + 1) + 1 by omega]
            simpa using member
          · apply untouched other
            rw [show touched - (l + 1) = 0 by omega] at member
            rw [show touched - l = 0 by omega]
            exact List.mem_cons_of_mem _ (by simpa using member)
        obtain ⟨after, high, done, size, value, started, ended, zeros⟩ :=
          ih (l + 1) ((carry + 256 * digit) / 58) rest (by simp at bound ⊢; omega) smaller
        refine ⟨(carry + 256 * digit) % 58 :: after, high, ?_, by simp [size], ?_, by omega,
          by simp at ended ⊢; omega, ?_⟩
        · rw [b58Carry, if_pos continues]
          simp [done]
        · rw [Nat.ofDigits_cons, Nat.ofDigits_cons, value]
          omega
        · rw [show high - l = high - (l + 1) + 1 by omega]
          simpa using zeros
      · obtain ⟨reached, none⟩ : ¬ l < touched ∧ carry = 0 := by omega
        rw [show touched - l = 0 by omega, List.drop_zero] at untouched
        refine ⟨digit :: buf, l, ?_, rfl, ?_, le_refl l, by omega, by simpa using untouched⟩
        · rw [b58Carry, if_neg continues]
        · rw [ofDigits_of_zeros untouched, none]

/-- The inner loop writes digits. -/
theorem lt_of_b58Carry {touched : ℕ} {buf after : List ℕ} {l carry high : ℕ}
    (small : ∀ digit ∈ buf, digit < 58) (done : b58Carry touched buf l carry = .ok (after, high)) :
    ∀ digit ∈ after, digit < 58 := by
  induction buf generalizing l carry after high with
  | nil =>
      rw [b58Carry] at done
      split_ifs at done
      cases done
      exact small
  | cons digit buf ih =>
      rw [b58Carry] at done
      split_ifs at done
      · obtain ⟨⟨rest, top⟩, later, same⟩ := Result.bind_eq_ok.mp done
        cases same
        refine List.forall_mem_cons.mpr ⟨Nat.mod_lt _ (by decide), ?_⟩
        exact ih (List.forall_mem_cons.mp small).2 later
      · cases done
        exact small

/-- **A run of bytes** stays in the array when the array has room for the number
they make. What it leaves are digits of the number that was there, with the bytes after it. -/
theorem exists_b58encLoop (bin : List UInt8) (high : ℕ) (buf : List ℕ)
    (untouched : ∀ digit ∈ buf.drop high, digit = 0) (bound : high ≤ buf.length)
    (room : (Nat.ofDigits 58 buf + 1) * 256 ^ bin.length ≤ 58 ^ buf.length) :
    ∃ after, b58encLoop bin high buf = .ok after ∧ after.length = buf.length ∧
      Nat.ofDigits 58 after = Nat.ofDigits 58 buf * 256 ^ bin.length + bigEndian bin ∧
      ((∀ digit ∈ buf, digit < 58) → ∀ digit ∈ after, digit < 58) := by
  induction bin generalizing high buf with
  | nil => exact ⟨buf, rfl, rfl, by simp [bigEndian], fun small => small⟩
  | cons byte bin ih =>
      have few : byte.toNat < 256 := byte.toNat_lt
      rw [List.length_cons, pow_succ] at room
      have scaled : (Nat.ofDigits 58 buf * 256 + byte.toNat + 1) * 256 ^ bin.length ≤
          58 ^ buf.length :=
        calc (Nat.ofDigits 58 buf * 256 + byte.toNat + 1) * 256 ^ bin.length
            ≤ ((Nat.ofDigits 58 buf + 1) * 256) * 256 ^ bin.length :=
              Nat.mul_le_mul_right _ (by omega)
          _ = (Nat.ofDigits 58 buf + 1) * (256 ^ bin.length * 256) := by ring
          _ ≤ 58 ^ buf.length := room
      have fits : Nat.ofDigits 58 buf * 256 + byte.toNat < 58 ^ buf.length :=
        Nat.lt_of_succ_le ((Nat.le_mul_of_pos_right _ (Nat.pow_pos (by decide))).trans scaled)
      obtain ⟨between, next, carried, size, value, -, ended, zeros⟩ :=
        exists_b58Carry buf 0 byte.toNat (by simpa using untouched) (by simpa using bound) fits
      obtain ⟨after, finished, same, total, digits⟩ :=
        ih next between (by simpa using zeros) (by omega) (by rwa [value, size])
      refine ⟨after, ?_, same.trans size, ?_, fun small => digits (lt_of_b58Carry small carried)⟩
      · rw [b58encLoop, carried]
        exact finished
      · have split := bigEndian_append [byte] bin
        rw [List.singleton_append, show bigEndian [byte] = byte.toNat by simp [bigEndian]] at split
        rw [total, value, split, List.length_cons, pow_succ]
        ring

/-- The array of `b58enc` has room: 138 base-58 digits hold 100 bytes. -/
theorem pow_bytes_le (count : ℕ) : 256 ^ count ≤ 58 ^ (count * 138 / 100 + 1) := by
  have hundred : (256 ^ count) ^ 100 ≤ (58 ^ (count * 138 / 100 + 1)) ^ 100 := by
    calc (256 ^ count) ^ 100 = (256 ^ 100) ^ count := by rw [← pow_mul, ← pow_mul, mul_comm]
      _ ≤ (58 ^ 138) ^ count := Nat.pow_le_pow_left (by norm_num) count
      _ = 58 ^ (138 * count) := by rw [← pow_mul]
      _ ≤ 58 ^ ((count * 138 / 100 + 1) * 100) := Nat.pow_le_pow_right (by decide) (by omega)
      _ = (58 ^ (count * 138 / 100 + 1)) ^ 100 := by rw [pow_mul]
  exact (Nat.pow_le_pow_iff_left (by decide)).mp hundred

/-- **`b58enc` succeeds** in a buffer with room for its array, whatever the bytes. -/
theorem exists_b58enc {b58sz : ℕ} (bin : List UInt8) (room : bin.length * 138 / 100 + 1 < b58sz) :
    ∃ text size, b58enc b58sz bin = .ok (some (text, size)) := by
  have leading : (bin.takeWhile (· == 0)).length ≤ bin.length := (List.takeWhile_prefix _).length_le
  have small : 256 ^ (bin.drop (bin.takeWhile (· == 0)).length).length ≤
      58 ^ ((bin.length - (bin.takeWhile (· == 0)).length) * 138 / 100 + 1) := by
    rw [List.length_drop]
    exact pow_bytes_le _
  obtain ⟨buf, done, size, -⟩ := exists_b58encLoop (bin.drop (bin.takeWhile (· == 0)).length) 0
    (List.replicate ((bin.length - (bin.takeWhile (· == 0)).length) * 138 / 100 + 1) 0)
    (fun digit member => List.eq_of_mem_replicate (List.mem_of_mem_drop member)) (Nat.zero_le _)
    (by rw [ofDigits_of_zeros fun _ => List.eq_of_mem_replicate]; simpa using small)
  simp only [b58enc, done, Result.ok_bind]
  rw [if_neg (by omega)]
  exact ⟨_, _, rfl⟩

end HashArchive.Base58
