import Mathlib.Algebra.Group.Nat.Defs
import Mathlib.Data.List.Basic
import Mathlib.Data.List.Induction

/-!
# Reading a stream of bytes

A reader takes bytes from the front of a stream and gives a value or an error; the
error for a stream that ends too early is a parameter of the readers that can give it.
`Reads` says that a reader takes exactly some bytes, whatever follows them, and is
composed along the reader. `Takes` bounds from below what a reader takes.

A number is written with its most significant byte first (`bigEndianBytes`) and read
with `bigEndian`.
-/

set_option autoImplicit false

namespace HashArchive

/-- A computation that takes bytes from a stream. -/
def ByteReader (ε α : Type) : Type := List UInt8 → Except ε α × List UInt8

namespace ByteReader

variable {ε α β : Type}

instance : Monad (ByteReader ε) where
  pure value := fun stream => (.ok value, stream)
  bind first next := fun stream =>
    match first stream with
    | (.ok value, rest) => next value rest
    | (.error error, rest) => (.error error, rest)

/-- Ending with an error. -/
def fail (error : ε) : ByteReader ε α := fun stream => (.error error, stream)

/-- Reading a number of bytes. When the stream ends before, they are taken all the same. -/
def exactly (eof : ε) (count : ℕ) : ByteReader ε { bytes : List UInt8 // bytes.length = count } :=
  fun stream =>
    if enough : count ≤ stream.length then
      (.ok ⟨stream.take count, List.length_take_of_le enough⟩, stream.drop count)
    else (.error eof, [])

theorem bind_of_ok {first : ByteReader ε α} {next : α → ByteReader ε β} {stream rest : List UInt8}
    {value : α} (done : first stream = (.ok value, rest)) :
    (first >>= next) stream = next value rest := by
  show (match first stream with
    | (.ok value, rest) => next value rest
    | (.error error, rest) => (.error error, rest)) = next value rest
  rw [done]

theorem bind_of_error {first : ByteReader ε α} {next : α → ByteReader ε β}
    {stream rest : List UInt8} {error : ε} (failed : first stream = (.error error, rest)) :
    (first >>= next) stream = (.error error, rest) := by
  show (match first stream with
    | (.ok value, rest) => next value rest
    | (.error error, rest) => (.error error, rest)) = (.error error, rest)
  rw [failed]

theorem fst_bind_of_error {first : ByteReader ε α} {next : α → ByteReader ε β}
    {stream : List UInt8} {error : ε} (failed : (first stream).1 = .error error) :
    ((first >>= next) stream).1 = .error error := by
  rw [bind_of_error (Prod.ext failed rfl)]

theorem bind_assoc {γ : Type} (first : ByteReader ε α) (next : α → ByteReader ε β)
    (last : β → ByteReader ε γ) :
    first >>= next >>= last = first >>= fun value => next value >>= last := by
  funext stream
  rcases outcome : first stream with ⟨error | value, rest⟩
  · rw [bind_of_error outcome, bind_of_error (bind_of_error outcome)]
  · rw [bind_of_ok outcome]
    rcases more : next value rest with ⟨error | middle, left⟩
    · rw [bind_of_error more, bind_of_error ((bind_of_ok outcome).trans more)]
    · rw [bind_of_ok more, bind_of_ok ((bind_of_ok outcome).trans more)]

/-- A sequence of two readers succeeds when both do. -/
theorem bind_eq_ok {first : ByteReader ε α} {next : α → ByteReader ε β}
    {stream rest : List UInt8} {value : β} :
    (first >>= next) stream = (.ok value, rest) ↔
      ∃ middle between, first stream = (.ok middle, between) ∧
        next middle between = (.ok value, rest) := by
  rcases outcome : first stream with ⟨error | middle, between⟩
  · simp [bind_of_error outcome]
  · simp [bind_of_ok outcome]

/-! ## What is read -/

/-- **The reader takes exactly these bytes**, whatever follows them. -/
def Reads (reader : ByteReader ε α) (bytes : List UInt8) (value : α) : Prop :=
  ∀ rest, reader (bytes ++ rest) = (.ok value, rest)

theorem Reads.pure (value : α) : Reads (pure value : ByteReader ε α) [] value := fun _ => rfl

theorem Reads.bind {first : ByteReader ε α} {next : α → ByteReader ε β} {front back : List UInt8}
    {middle : α} {value : β} (readsFirst : Reads first front middle)
    (readsNext : Reads (next middle) back value) : Reads (first >>= next) (front ++ back) value := by
  intro rest
  rw [List.append_assoc, bind_of_ok (readsFirst _)]
  exact readsNext rest

/-- A value made from one that is read. -/
theorem Reads.map {reader : ByteReader ε α} {bytes : List UInt8} {value : α}
    (reads : Reads reader bytes value) (f : α → β) :
    Reads (reader >>= fun value => Pure.pure (f value)) bytes (f value) := by
  intro rest
  rw [bind_of_ok (reads rest)]
  rfl

theorem Reads.exactly {eof : ε} {count : ℕ} {bytes : List UInt8} (length : bytes.length = count) :
    Reads (exactly eof count) bytes ⟨bytes, length⟩ := by
  subst length
  intro rest
  have enough : bytes.length ≤ (bytes ++ rest).length := by simp
  rw [ByteReader.exactly, dif_pos enough, List.drop_left]
  simp only [List.take_left]

/-! ## What is not given -/

/-- The reader never gives an error. -/
def Avoids (reader : ByteReader ε α) (error : ε) : Prop := ∀ stream, (reader stream).1 ≠ .error error

namespace Avoids

variable {error : ε}

theorem pure (value : α) : Avoids (pure value : ByteReader ε α) error := fun _ => nofun

theorem fail {other : ε} (differs : other ≠ error) : Avoids (fail other : ByteReader ε α) error :=
  fun _ same => differs (Except.error.inj same)

theorem exactly {eof : ε} (differs : eof ≠ error) (count : ℕ) : Avoids (exactly eof count) error := by
  intro stream
  unfold ByteReader.exactly
  split
  · exact nofun
  · exact fun same => differs (Except.error.inj same)

theorem bind {first : ByteReader ε α} {next : α → ByteReader ε β} (avoidsFirst : Avoids first error)
    (avoidsNext : ∀ value, Avoids (next value) error) : Avoids (first >>= next) error := by
  intro stream
  have here := avoidsFirst stream
  rcases outcome : first stream with ⟨other | middle, between⟩
  · rw [bind_of_error outcome]
    rw [outcome] at here
    exact fun same => here (congrArg Except.error (Except.error.inj same))
  · rw [bind_of_ok outcome]
    exact avoidsNext middle between

end Avoids

/-! ## How much is read -/

/-- A reader leaves no more than there was, and takes a number of bytes at least when it
succeeds. -/
structure Takes (reader : ByteReader ε α) (least : ℕ) : Prop where
  shrinks : ∀ stream, (reader stream).2.length ≤ stream.length
  least : ∀ {stream rest value}, reader stream = (.ok value, rest) →
    rest.length + least ≤ stream.length

namespace Takes

theorem pure (value : α) : Takes (pure value : ByteReader ε α) 0 where
  shrinks stream := Nat.le_refl _
  least done := by
    cases done
    exact Nat.le_refl _

theorem fail (error : ε) (least : ℕ) : Takes (fail error : ByteReader ε α) least where
  shrinks stream := Nat.le_refl _
  least done := by cases done

theorem exactly (eof : ε) (count : ℕ) : Takes (exactly eof count) count where
  shrinks stream := by
    unfold ByteReader.exactly
    split
    · simp
    · exact Nat.zero_le _
  least := by
    intro stream rest value done
    unfold ByteReader.exactly at done
    split at done
    · cases done
      rw [List.length_drop]
      omega
    · cases done

theorem zero {reader : ByteReader ε α} {least : ℕ} (takes : Takes reader least) :
    Takes reader 0 where
  shrinks := takes.shrinks
  least done := Nat.le_of_add_right_le (takes.least done)

/-- What is read first is read by the whole. -/
theorem bind {first : ByteReader ε α} {next : α → ByteReader ε β} {least : ℕ}
    (takesFirst : Takes first least) (takesNext : ∀ value, Takes (next value) 0) :
    Takes (first >>= next) least where
  shrinks stream := by
    have before := takesFirst.shrinks stream
    rcases outcome : first stream with ⟨error | middle, between⟩
    · rw [bind_of_error outcome]
      rwa [outcome] at before
    · rw [bind_of_ok outcome]
      rw [outcome] at before
      exact Nat.le_trans ((takesNext middle).shrinks between) before
  least done := by
    obtain ⟨middle, between, doneFirst, doneNext⟩ := bind_eq_ok.mp done
    have before := takesFirst.least doneFirst
    have after := (takesNext middle).least doneNext
    omega

end Takes

end ByteReader

/-! ## Numbers -/

/-- The number whose bytes these are, the most significant one first. -/
def bigEndian (bytes : List UInt8) : ℕ :=
  bytes.foldl (fun number byte => number * 256 + byte.toNat) 0

/-- The last bytes of a number. -/
def bigEndianBytes : ℕ → ℕ → List UInt8
  | 0, _ => []
  | width + 1, number => bigEndianBytes width (number / 256) ++ [UInt8.ofNat number]

@[simp] theorem length_bigEndianBytes (width number : ℕ) :
    (bigEndianBytes width number).length = width := by
  induction width generalizing number with
  | zero => rfl
  | succ width ih => rw [bigEndianBytes, List.length_append, ih, List.length_singleton]

/-- **A number that fits is read back.** -/
theorem bigEndian_bigEndianBytes {width number : ℕ} (fits : number < 256 ^ width) :
    bigEndian (bigEndianBytes width number) = number := by
  induction width generalizing number with
  | zero =>
      rw [Nat.pow_zero] at fits
      exact (Nat.lt_one_iff.mp fits).symm
  | succ width ih =>
      have quotient : number / 256 < 256 ^ width := by
        rw [Nat.div_lt_iff_lt_mul (by decide), ← Nat.pow_succ]
        exact fits
      calc bigEndian (bigEndianBytes width (number / 256) ++ [UInt8.ofNat number])
          = bigEndian (bigEndianBytes width (number / 256)) * 256 + (UInt8.ofNat number).toNat := by
            simp [bigEndian]
        _ = number / 256 * 256 + number % 256 := by
            rw [ih quotient]
            rfl
        _ = number := Nat.div_add_mod' number 256

/-- Bytes in front that are zero do not count. -/
theorem bigEndian_zero_cons (bytes : List UInt8) : bigEndian (0 :: bytes) = bigEndian bytes := rfl

/-- The bytes of one number, and then those of another one. -/
theorem bigEndian_append (first second : List UInt8) :
    bigEndian (first ++ second) = bigEndian first * 256 ^ second.length + bigEndian second := by
  induction second using List.reverseRecOn with
  | nil => simp [bigEndian]
  | append_singleton second byte ih =>
      have last (bytes : List UInt8) :
          bigEndian (bytes ++ [byte]) = bigEndian bytes * 256 + byte.toNat := by
        simp [bigEndian]
      rw [← List.append_assoc, last, last, ih, List.length_append, List.length_singleton,
        Nat.pow_succ, Nat.add_mul, Nat.mul_assoc, Nat.add_assoc]

theorem bigEndian_lt (bytes : List UInt8) : bigEndian bytes < 256 ^ bytes.length := by
  induction bytes using List.reverseRecOn with
  | nil => exact Nat.one_pos
  | append_singleton bytes byte ih =>
      have small := byte.toNat_lt
      have one : bigEndian [byte] = byte.toNat := by simp [bigEndian]
      rw [bigEndian_append, one, List.length_append, List.length_singleton, Nat.pow_succ]
      omega

/-- **Bytes are those of a number**, when it is known how many there are. -/
theorem eq_of_bigEndian_eq {first second : List UInt8} (length : first.length = second.length)
    (same : bigEndian first = bigEndian second) : first = second := by
  induction first using List.reverseRecOn generalizing second with
  | nil => exact (List.length_eq_zero_iff.mp length.symm).symm
  | append_singleton first byte ih =>
      rcases List.eq_nil_or_concat' second with rfl | ⟨front, last, rfl⟩
      · simp at length
      have one (byte : UInt8) : bigEndian [byte] = byte.toNat := by simp [bigEndian]
      rw [bigEndian_append, bigEndian_append, one, one] at same
      have smallByte := byte.toNat_lt
      have smallLast := last.toNat_lt
      rw [List.length_append, List.length_append] at length
      rw [List.length_singleton, List.length_singleton] at same length
      have front := ih (Nat.add_right_cancel length) (by omega)
      have byte := UInt8.toNat_inj.mp (show byte.toNat = last.toNat by omega)
      rw [front, byte]

end HashArchive
