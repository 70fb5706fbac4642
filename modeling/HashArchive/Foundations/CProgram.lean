import Mathlib.Data.List.Basic
import Mathlib.Data.List.TakeWhile

/-!
# What the C functions share

A call of a C function ends with a value, with a negative return code, or in a
fault: an access outside an array, a failed assertion or a signed overflow.
After a fault the program has no further behaviour that can be relied on.

A character string is the list of its bytes without the terminating NUL, one
`Char` for each byte. The functions of the C library below are the ones that
bound or split strings: `strlcpy`, `strlcat`, `snprintf`, and `sscanf` for
formats made of literal characters and scansets.

A local array is a list of cells. Reads and writes through an index are checked
(`writeCell`), so that a function whose result is not a fault stays in bounds. What
an array holds before it is written is a parameter (`uninitialized`).
-/

set_option autoImplicit false

namespace HashArchive

universe u v

/-- The ways in which a C program leaves its defined behaviour. -/
inductive Fault where
  | outOfBounds
  | assertion
  | signedOverflow
deriving DecidableEq, Repr

/-- The negative return codes the modelled functions can give. -/
inductive ErrorCode where
  | urlEparse
  | enametoolong
  | hashEinval
  | hashEparse
  | hashEnotsup
  | kvsEinval
  | kvsNotfound
  | kvsKeyexist
  /-- A store operation failed for a reason outside the program. -/
  | kvsIo
deriving DecidableEq, Repr

/-- Why a call did not give a value. -/
inductive Failure where
  | code (rc : ErrorCode)
  | fault (fault : Fault)
deriving DecidableEq, Repr

/-- The outcome of a call. -/
abbrev Result (α : Type u) : Type u := Except Failure α

/-- A sequence of two calls succeeds when both do, whatever their errors are. -/
theorem except_bind_eq_ok {ε : Type v} {α β : Type u} {first : Except ε α} {next : α → Except ε β}
    {value : β} :
    (first >>= next) = .ok value ↔ ∃ middle, first = .ok middle ∧ next middle = .ok value := by
  cases first with
  | error error =>
      constructor
      · intro failed
        cases failed
      · rintro ⟨middle, done, -⟩
        cases done
  | ok middle =>
      constructor
      · intro done
        exact ⟨middle, rfl, done⟩
      · rintro ⟨same, done, rest⟩
        cases done
        exact rest

namespace Result

variable {α β : Type u}

@[simp] theorem ok_bind (value : α) (next : α → Result β) :
    ((Except.ok value : Result α) >>= next) = next value := rfl

@[simp] theorem error_bind (failure : Failure) (next : α → Result β) :
    ((Except.error failure : Result α) >>= next) = .error failure := rfl

/-- A sequence of two calls succeeds when both do. -/
theorem bind_eq_ok {first : Result α} {next : α → Result β} {value : β} :
    (first >>= next) = .ok value ↔ ∃ middle, first = .ok middle ∧ next middle = .ok value :=
  except_bind_eq_ok

/-- A sequence of two calls fails when one of them does. -/
theorem bind_eq_error {first : Result α} {next : α → Result β} {failure : Failure} :
    (first >>= next) = .error failure ↔
      first = .error failure ∨ ∃ middle, first = .ok middle ∧ next middle = .error failure := by
  cases first with
  | error failure => simp
  | ok middle => simp

end Result

/-- `assert(condition)`. -/
def assertThat (condition : Prop) [Decidable condition] : Result Unit :=
  if condition then .ok () else .error (.fault .assertion)

@[simp] theorem assertThat_eq_ok {condition : Prop} [Decidable condition] {value : Unit} :
    assertThat condition = .ok value ↔ condition := by
  unfold assertThat
  split <;> simp_all

/-! ## Arrays -/

section Arrays

variable {α : Type u}

/-- `cells[index] = value`. -/
def writeCell (cells : List α) (index : ℕ) (value : α) : Result (List α) :=
  if index < cells.length then .ok (cells.set index value) else .error (.fault .outOfBounds)

/-- Writing the cell that follows a prefix. -/
theorem writeCell_append_cons (before after : List α) (old value : α) {index : ℕ}
    (position : index = before.length) :
    writeCell (before ++ old :: after) index value = .ok (before ++ value :: after) := by
  subst position
  simp [writeCell]

theorem writeCell_append (before cells : List α) (index : ℕ) (value : α) :
    writeCell (before ++ cells) (before.length + index) value =
      writeCell cells index value >>= fun written => .ok (before ++ written) := by
  unfold writeCell
  by_cases inBounds : index < cells.length
  · simp [inBounds]
  · simp [inBounds]

@[simp] theorem writeCell_cons_zero (old value : α) (cells : List α) :
    writeCell (old :: cells) 0 value = .ok (value :: cells) := by simp [writeCell]

@[simp] theorem writeCell_cons_succ (first value : α) (cells : List α) (index : ℕ) :
    writeCell (first :: cells) (index + 1) value =
      writeCell cells index value >>= fun written => .ok (first :: written) := by
  unfold writeCell
  by_cases inBounds : index < cells.length <;> simp [inBounds]

/-- `memcpy(cells + index, source, sizeof source)`: the whole source has to fit. -/
def memcpy (cells : List α) (index : ℕ) (source : List α) : Result (List α) :=
  if index + source.length ≤ cells.length then
    .ok (cells.take index ++ source ++ cells.drop (index + source.length))
  else .error (.fault .outOfBounds)

/-- Reading `count` cells from `index` on. -/
def readCells (cells : List α) (index count : ℕ) : Result (List α) :=
  if index + count ≤ cells.length then .ok ((cells.drop index).take count)
  else .error (.fault .outOfBounds)

theorem writeCell_of_lt {cells : List α} {index : ℕ} (inBounds : index < cells.length) (value : α) :
    writeCell cells index value = .ok (cells.set index value) := if_pos inBounds

/-- A copy leaves an array of the same length. -/
theorem memcpy_eq_ok {cells source copied : List α} {index : ℕ} :
    memcpy cells index source = .ok copied ↔ index + source.length ≤ cells.length ∧
      copied = cells.take index ++ source ++ cells.drop (index + source.length) := by
  unfold memcpy
  by_cases inBounds : index + source.length ≤ cells.length
  · rw [if_pos inBounds, Except.ok.injEq]
    exact ⟨fun same => ⟨inBounds, same.symm⟩, fun same => same.2.symm⟩
  · simp [inBounds]

theorem length_of_memcpy {cells source copied : List α} {index : ℕ}
    (done : memcpy cells index source = .ok copied) : copied.length = cells.length := by
  obtain ⟨inBounds, rfl⟩ := memcpy_eq_ok.mp done
  simp only [List.length_append, List.length_take, List.length_drop]
  omega

theorem memcpy_overflow {cells source : List α} {index : ℕ}
    (long : cells.length < index + source.length) :
    memcpy cells index source = .error (.fault .outOfBounds) :=
  if_neg (by omega)

/-- One cell is copied as it is written. -/
theorem writeCell_eq_memcpy (cells : List α) (index : ℕ) (value : α) :
    writeCell cells index value = memcpy cells index [value] := by
  by_cases inBounds : index < cells.length
  · rw [writeCell_of_lt inBounds, memcpy, if_pos (show index + [value].length ≤ _ from inBounds),
      List.set_eq_take_append_cons_drop, if_pos inBounds, List.append_assoc]
    rfl
  · rw [writeCell, if_neg inBounds, memcpy_overflow (show _ < index + [value].length by
      rw [List.length_singleton]
      omega)]

/-- A copy over the cells after those that are written. -/
theorem memcpy_append {written here source : List α} (fits : here.length = source.length)
    (rest : List α) :
    memcpy (written ++ (here ++ rest)) written.length source = .ok (written ++ source ++ rest) := by
  refine memcpy_eq_ok.mpr ⟨?_, ?_⟩
  · rw [List.length_append, List.length_append]
    omega
  · rw [List.take_left, List.drop_append, List.drop_eq_nil_of_le (Nat.le_add_right _ _),
      Nat.add_sub_cancel_left, List.nil_append, ← fits, List.drop_left]

theorem readCells_eq_ok {cells read : List α} {index count : ℕ} :
    readCells cells index count = .ok read ↔
      index + count ≤ cells.length ∧ read = (cells.drop index).take count := by
  unfold readCells
  by_cases inBounds : index + count ≤ cells.length
  · rw [if_pos inBounds, Except.ok.injEq]
    exact ⟨fun same => ⟨inBounds, same.symm⟩, fun same => same.2.symm⟩
  · simp [inBounds]

end Arrays

/-- What the stack holds before a local array is written. -/
abbrev Stack : Type := ℕ → UInt8

/-- A local byte array before it is written. -/
def Stack.uninitialized (stack : Stack) (size : ℕ) : List UInt8 := (List.range size).map stack

/-- A local character array before it is written. -/
def Stack.uninitializedChars (stack : Stack) (size : ℕ) : List Char :=
  (List.range size).map fun index => Char.ofNat (stack index).toNat

@[simp] theorem Stack.length_uninitialized (stack : Stack) (size : ℕ) :
    (stack.uninitialized size).length = size := by simp [uninitialized]

@[simp] theorem Stack.length_uninitializedChars (stack : Stack) (size : ℕ) :
    (stack.uninitializedChars size).length = size := by simp [uninitializedChars]

/-! ## Strings -/

/-- A C string, without its terminating NUL. -/
abbrev Str : Type := List Char

/-- The terminating NUL. -/
def nul : Char := Char.ofNat 0

/-- The string a character array holds: everything before the first NUL. -/
def cString (cells : List Char) : Str := cells.takeWhile (· != nul)

theorem cString_append_nul {text rest : List Char} (terminated : nul ∉ text) :
    cString (text ++ nul :: rest) = text := by
  have inText : ∀ c ∈ text, (c != nul) = true := by
    intro c member
    simpa using fun same : c = nul => terminated (same ▸ member)
  rw [cString, List.takeWhile_append_of_pos inText, List.takeWhile_cons_of_neg (by simp),
    List.append_nil]

/-- What `strlcpy` leaves in a buffer of `max` bytes. -/
def strlcpy (source : Str) (max : ℕ) : Str := source.take (max - 1)

/-- What `strlcat` leaves in a buffer of `max` bytes. -/
def strlcat (destination source : Str) (max : ℕ) : Str :=
  destination ++ source.take (max - 1 - destination.length)

/-- What `snprintf` leaves in a buffer of `max` bytes when the formatted text
is `text`; it returns the length of the text. -/
def snprintf (text : Str) (max : ℕ) : Str × ℕ := (text.take (max - 1), text.length)

theorem strlcpy_of_length_lt {source : Str} {max : ℕ} (fits : source.length < max) :
    strlcpy source max = source :=
  List.take_of_length_le (by omega)

theorem length_strlcpy_lt {source : Str} {max : ℕ} (positive : 0 < max) :
    (strlcpy source max).length < max := by
  simp only [strlcpy, List.length_take]
  omega

/-! ## Scanning -/

/-- A directive of a `sscanf` format: a character that has to be there, or a
conversion `%width[set]`. -/
inductive Directive where
  | literal (char : Char)
  | scanset (width : Option ℕ) (set : Char → Bool)

/-- The characters one conversion takes. -/
def scansetMatch (width : Option ℕ) (set : Char → Bool) (input : Str) : Str :=
  match width with
  | some width => (input.take width).takeWhile set
  | none => input.takeWhile set

/-- The strings the conversions of a format assign, in order, up to the first
directive that fails. -/
def sscanf : List Directive → Str → List Str
  | [], _ => []
  | .literal _ :: _, [] => []
  | .literal char :: format, next :: input =>
    if next = char then sscanf format input else []
  | .scanset width set :: format, input =>
    match scansetMatch width set input with
    | [] => []
    | taken => taken :: sscanf format (input.drop taken.length)

end HashArchive
