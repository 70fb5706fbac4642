import HashArchive.Foundations.Scanning
import HashArchive.Util.HashCodec

/-!
# What base 64 reads and writes

`b64_decode` decides what it does by the characters before the first NUL, `=` or the end of
its input (`b64Decode_eq_run`), and with less room it gives the first of the same bytes
(`b64Decode_take`). So it reads the string that `b64_encode` leaves in an array of any size,
whatever else is in the array, and gives back the bytes of the groups that fitted
(`b64_bounded`).
-/

set_option autoImplicit false

namespace HashArchive.Hash

/-! ## The characters that are decoded -/

/-- The characters before the first terminator and before `len`. -/
def b64Run (str : List Char) (len : ℕ) : List Char := (str.take len).takeWhile (!b64Term ·)

theorem not_b64Term_eq_false {c : Char} (ended : b64Term c = true) : (!b64Term c) = false := by
  rw [ended]
  rfl

theorem b64Run_zero {str : List Char} {len : ℕ} (ended : len = 0) : b64Run str len = [] :=
  boundedRun_zero ended

theorem b64Run_term {c : Char} {str : List Char} {len : ℕ} (ended : b64Term c = true) :
    b64Run (c :: str) len = [] :=
  boundedRun_stop (not_b64Term_eq_false ended)

theorem b64Run_cons {c : Char} {str : List Char} {len : ℕ} (more : 0 < len)
    (digit : ¬ b64Term c = true) : b64Run (c :: str) len = c :: b64Run str (len - 1) :=
  boundedRun_cons more (by simpa using digit)

/-- The input has `len` characters, or a terminator before. -/
def Readable (str : List Char) (len : ℕ) : Prop := len ≤ str.length ∨ ∃ c ∈ str, b64Term c = true

theorem readable_iff {str : List Char} {len : ℕ} :
    Readable str len ↔ EndsWithin (!b64Term ·) str len := by
  simp [Readable, EndsWithin]

theorem Readable.tail {c : Char} {str : List Char} {len : ℕ} (readable : Readable (c :: str) len)
    (digit : ¬ b64Term c = true) : Readable str (len - 1) :=
  readable_iff.mpr ((readable_iff.mp readable).tail (by simpa using digit))

theorem Readable.nonempty {len : ℕ} (readable : Readable [] len) : len = 0 :=
  (readable_iff.mp readable).nonempty

/-- **What is decoded** are the characters before the end of the input, and no cell after it
is read. -/
theorem b64Decode_eq_run {str : List Char} {len max : ℕ} (readable : Readable str len) :
    b64Decode str len max = b64Decode (b64Run str len) (b64Run str len).length max ∧
      ∀ fault, b64Decode str len max ≠ .error (.fault fault) := by
  fun_induction b64Decode str len max with
  | case1 => simp [b64Decode.eq_def, *]
  | case3 len max _ more => exact absurd readable.nonempty (by omega)
  | case7 len max _ more c0 digit0 =>
      have ended := (readable.tail digit0).nonempty
      omega
  | case12 len max _ more c0 digit0 _ _ _ c1 digit1 =>
      have ended := ((readable.tail digit0).tail digit1).nonempty
      omega
  | case17 len max _ more c0 digit0 _ _ _ c1 digit1 _ _ _ _ c2 digit2 =>
      have ended := (((readable.tail digit0).tail digit1).tail digit2).nonempty
      omega
  | case20 len max hasRoom more c0 digit0 six0 value0 more1 c1 digit1 six1 value1 byte0 room1 more2 c2
      digit2 six2 value2 byte1 room2 more3 c3 str digit3 six3 value3 byte2 ih =>
      -- The only round that goes on to another group.
      obtain ⟨rest, noFault⟩ := ih ((((readable.tail digit0).tail digit1).tail digit2).tail digit3)
      constructor
      · simp (disch := first | omega | assumption) only [b64Run_cons, List.length_cons]
        conv_rhs => rw [b64Decode.eq_def]
        rw [rest, show len - 1 - 1 - 1 - 1 = len - 4 by omega]
        simp +zetaDelta [*, -UInt8.ofNat_or]
      · intro fault failed
        rcases Result.bind_eq_error.mp failed with here | ⟨_, _, done⟩
        · exact noFault fault here
        · cases done
  | _ =>
      refine ⟨?_, by simp⟩
      simp (disch := first | omega | assumption) only [b64Run_cons, b64Run_zero, b64Run_term,
        List.length_cons, List.length_nil]
      rw [b64Decode.eq_def]
      simp +zetaDelta [*, -UInt8.ofNat_or]

/-- **With less room** the first of the same bytes are decoded. -/
theorem b64Decode_take {str : List Char} {len max : ℕ} {decoded : List UInt8}
    (done : b64Decode str len max = .ok decoded) {fewer : ℕ} (less : fewer ≤ max) :
    b64Decode str len fewer = .ok (decoded.take fewer) := by
  fun_induction b64Decode str len max generalizing decoded fewer with
  | case20 =>
      -- The only round that goes on to another group.
      rename_i ih
      obtain ⟨tail, rest, same⟩ := Result.bind_eq_ok.mp done
      cases same
      rcases fewer with _ | _ | _ | fewer
      · simp [b64Decode.eq_def]
      · rw [b64Decode.eq_def]
        simp +zetaDelta [*, -UInt8.ofNat_or]
      · rw [b64Decode.eq_def]
        simp +zetaDelta [*, -UInt8.ofNat_or]
      · have later := @ih _ rest fewer (by omega)
        rw [b64Decode.eq_def]
        simp +zetaDelta [*, -UInt8.ofNat_or]
  | _ =>
      cases done <;> rcases fewer with _ | _ | _ | fewer <;> rw [b64Decode.eq_def] <;>
        first
        | omega
        | simp +zetaDelta [*, -UInt8.ofNat_or]

/-! ## The end of the input -/

/-- The cells up to the end of the input: the characters that are decoded and the terminator
after them, when it comes before `len`. -/
def b64Input (str : List Char) (len : ℕ) : List Char :=
  (str.take len).take ((b64Run str len).length + 1)

theorem b64Run_append {text rest : List Char} {len : ℕ} (fits : text.length ≤ len)
    (ends : ∀ c ∈ rest.head?, b64Term c = true) :
    b64Run (text ++ rest) len = b64Run text text.length :=
  boundedRun_append fits fun c first => not_b64Term_eq_false (ends c first)

/-- The cells up to the end have the same end. -/
theorem b64Run_b64Input (str : List Char) (len : ℕ) :
    b64Run (b64Input str len) len = b64Run str len :=
  boundedRun_boundedInput _ str len

theorem readable_b64Input {str : List Char} {len : ℕ} (readable : Readable str len) :
    Readable (b64Input str len) len :=
  readable_iff.mpr (readable_iff.mp readable).boundedInput

/-! ## Encoding and decoding -/

/-- **The string in an array is decoded**, into any array that has room for its bytes. -/
theorem b64Decode_cells (type : B64Type) (buf : List UInt8) (unwritten : List Char)
    {len capacity : ℕ} (whole : (b64Text type buf).length ≤ len) (room : buf.length ≤ capacity) :
    b64Decode (b64Text type buf ++ nul :: unwritten) len capacity = .ok buf := by
  have ends : ∀ c ∈ (nul :: unwritten).head?, b64Term c = true := by
    rintro c ⟨⟩
    decide
  have readable : Readable (b64Text type buf ++ nul :: unwritten) len :=
    .inr ⟨nul, by simp, by decide⟩
  have larger := b64Decode_b64Text type buf (Nat.lt_succ_of_le room)
  calc b64Decode (b64Text type buf ++ nul :: unwritten) len capacity
      = b64Decode (b64Run (b64Text type buf) (b64Text type buf).length)
          (b64Run (b64Text type buf) (b64Text type buf).length).length capacity := by
        rw [(b64Decode_eq_run readable).1, b64Run_append whole ends]
    _ = b64Decode (b64Text type buf) (b64Text type buf).length capacity :=
        (b64Decode_eq_run (.inl (Nat.le_refl _))).1.symm
    _ = .ok (buf.take capacity) := b64Decode_take larger (Nat.le_succ _)
    _ = .ok buf := by rw [List.take_of_length_le room]

/-- **Base 64 is bounded and decodes back.** An array of any size holds the string of the
groups that fit, which is decoded to their bytes; and no input is read after its end or
decoded to more bytes than there is room for. -/
theorem b64_bounded (type : B64Type) (buf : List UInt8) (out : List Char)
    (room : 0 < out.length) :
    (∃ cells, b64Encode type buf out out.length = .ok (cells, (cString cells).length) ∧
      nul ∈ cells ∧ ∀ len capacity, (cString cells).length ≤ len →
        min buf.length (3 * ((out.length - 1) / 4)) ≤ capacity →
        b64Decode cells len capacity = .ok (buf.take (3 * ((out.length - 1) / 4)))) ∧
    (4 * ((buf.length + 2) / 3) < out.length →
      buf.take (3 * ((out.length - 1) / 4)) = buf) ∧
    ∀ str len capacity,
      (∀ decoded, b64Decode str len capacity = .ok decoded → decoded.length ≤ capacity) ∧
      (Readable str len → b64Decode (b64Input str len) len capacity = b64Decode str len capacity ∧
        ∀ fault, b64Decode str len capacity ≠ .error (.fault fault)) := by
  refine ⟨?_, fun large => List.take_of_length_le (by omega), fun str len capacity => ⟨?_, ?_⟩⟩
  · obtain ⟨unwritten, encoded⟩ := b64Encode_spec type buf out room (Nat.le_refl _)
    have text := @cString_append_nul _ unwritten
      (nul_not_mem_b64Text type (buf.take (3 * ((out.length - 1) / 4))))
    refine ⟨_, by rw [text]; exact encoded, by simp, fun len capacity whole fits => ?_⟩
    rw [text] at whole
    refine b64Decode_cells type _ unwritten whole ?_
    rwa [List.length_take, min_comm]
  · intro decoded done
    rw [length_of_b64Decode done]
    exact min_le_left _ _
  · intro readable
    obtain ⟨run, noFault⟩ := @b64Decode_eq_run _ _ capacity readable
    refine ⟨?_, noFault⟩
    rw [(b64Decode_eq_run (readable_b64Input readable)).1, b64Run_b64Input, run]

theorem b64_bounded_four_cells :
    (∃ cells, b64Encode .url [1, 2, 3, 4] (List.replicate 5 'x') 5 =
        .ok (cells, (cString cells).length) ∧
      nul ∈ cells ∧ ∀ len capacity, (cString cells).length ≤ len → min 4 (3 * ((5 - 1) / 4)) ≤ capacity →
        b64Decode cells len capacity = .ok [1, 2, 3]) ∧
    (4 * ((4 + 2) / 3) < 5 → [1, 2, 3] = ([1, 2, 3, 4] : List UInt8)) ∧
    ∀ str len capacity,
      (∀ decoded, b64Decode str len capacity = .ok decoded → decoded.length ≤ capacity) ∧
      (Readable str len → b64Decode (b64Input str len) len capacity = b64Decode str len capacity ∧
        ∀ fault, b64Decode str len capacity ≠ .error (.fault fault)) :=
  b64_bounded .url [1, 2, 3, 4] (List.replicate 5 'x') (by decide)

end HashArchive.Hash
