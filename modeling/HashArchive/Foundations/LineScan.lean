import Mathlib.Data.List.Basic

/-!
# Lines of a text

A text is read byte by byte, and a function is called with each line. A line ends with CR, with
LF or with both, and the last line need not end; a byte can stand for several bytes of its line
(`readable`). What is read does not depend on how the text is cut into pieces, as a fold over
pieces is a fold over the text.

`linesOf` are the lines themselves, and `finish_foldl` says that calling the function while the
text is read is calling it with these lines.
-/

set_option autoImplicit false

namespace HashArchive

/-- A reader of lines: what the function has made of the lines so far, the line that has not
ended, and whether the last byte was a CR. -/
structure LineScan (σ : Type) where
  state : σ
  pending : List UInt8
  afterCr : Bool

namespace LineScan

variable {σ : Type} (readable : UInt8 → List UInt8) (processLine : σ → List UInt8 → σ)

/-- One byte. The LF of a CR LF is skipped. -/
def byte (scan : LineScan σ) (c : UInt8) : LineScan σ :=
  if c = 10 then
    if scan.afterCr then { scan with afterCr := false }
    else ⟨processLine scan.state scan.pending, [], false⟩
  else if c = 13 then ⟨processLine scan.state scan.pending, [], true⟩
  else ⟨scan.state, scan.pending ++ readable c, false⟩

/-- The end of the text ends a line that is not empty. -/
def finish (scan : LineScan σ) : σ :=
  if scan.pending = [] then scan.state else processLine scan.state scan.pending

/-- The lines of a text. -/
def linesOf (text : List UInt8) : List (List UInt8) :=
  (text.foldl (byte readable fun lines line => lines ++ [line]) ⟨[], [], false⟩).finish
    fun lines line => lines ++ [line]

variable {readable processLine} {scan : LineScan σ} {state : σ} {pending text : List UInt8}

theorem byte_lf : (⟨state, pending, false⟩ : LineScan σ).byte readable processLine 10 =
    ⟨processLine state pending, [], false⟩ := rfl

theorem byte_cr : scan.byte readable processLine 13 =
    ⟨processLine scan.state scan.pending, [], true⟩ := rfl

theorem byte_of_ne {c : UInt8} (notLf : c ≠ 10) (notCr : c ≠ 13) :
    scan.byte readable processLine c = ⟨scan.state, scan.pending ++ readable c, false⟩ := by
  rw [byte, if_neg notLf, if_neg notCr]

/-- Only an LF is read otherwise after a CR. -/
theorem byte_afterCr {c : UInt8} (notLf : c ≠ 10) (afterCr : Bool) :
    (⟨state, pending, afterCr⟩ : LineScan σ).byte readable processLine c =
      (⟨state, pending, false⟩ : LineScan σ).byte readable processLine c := by
  rw [byte, byte, if_neg notLf, if_neg notLf]

theorem foldl_afterCr (notLf : text.head? ≠ some 10) (nonempty : text ≠ []) (afterCr : Bool) :
    text.foldl (byte readable processLine) ⟨state, pending, afterCr⟩ =
      text.foldl (byte readable processLine) ⟨state, pending, false⟩ := by
  cases text with
  | nil => exact absurd rfl nonempty
  | cons c text =>
      rw [List.foldl_cons, List.foldl_cons, byte_afterCr (by simpa using notLf)]

/-- Bytes that stand for themselves are put to the line. -/
theorem foldl_plain (plain : ∀ c ∈ text, c ≠ 10 ∧ c ≠ 13 ∧ readable c = [c]) :
    text.foldl (byte readable processLine) ⟨state, pending, false⟩ =
      ⟨state, pending ++ text, false⟩ := by
  induction text generalizing pending with
  | nil => rw [List.foldl_nil, List.append_nil]
  | cons c text ih =>
      obtain ⟨⟨notLf, notCr, itself⟩, plain⟩ := List.forall_mem_cons.mp plain
      rw [List.foldl_cons, byte_of_ne notLf notCr, itself, ih plain, List.append_assoc,
        List.singleton_append]

/-- What a reader with another function has read. -/
theorem foldl_state {init : σ} {lines : List (List UInt8)} {afterCr : Bool} :
    ∃ lines' pending' afterCr',
      text.foldl (byte readable fun lines line => lines ++ [line]) ⟨lines, pending, afterCr⟩ =
        ⟨lines', pending', afterCr'⟩ ∧
      text.foldl (byte readable processLine) ⟨lines.foldl processLine init, pending, afterCr⟩ =
        ⟨lines'.foldl processLine init, pending', afterCr'⟩ := by
  induction text generalizing lines pending afterCr with
  | nil => exact ⟨lines, pending, afterCr, rfl, rfl⟩
  | cons c text ih =>
      have called : (lines ++ [pending]).foldl processLine init =
          processLine (lines.foldl processLine init) pending := List.foldl_append
      rw [List.foldl_cons, List.foldl_cons, byte, byte, ← called]
      by_cases lf : c = 10
      · rw [if_pos lf, if_pos lf]
        cases afterCr with
        | true => exact ih
        | false => exact ih
      · rw [if_neg lf, if_neg lf]
        by_cases cr : c = 13
        · rw [if_pos cr, if_pos cr]
          exact ih
        · rw [if_neg cr, if_neg cr]
          exact ih

/-- **Calling a function for each line** while a text is read is calling it with the lines of
the text. -/
theorem finish_foldl (init : σ) :
    (text.foldl (byte readable processLine) ⟨init, [], false⟩).finish processLine =
      (linesOf readable text).foldl processLine init := by
  obtain ⟨lines, pending, afterCr, asLines, asStates⟩ :=
    @foldl_state σ readable processLine [] text init [] false
  rw [linesOf, asLines]
  have asStates : text.foldl (byte readable processLine) ⟨init, [], false⟩ =
      ⟨lines.foldl processLine init, pending, afterCr⟩ := asStates
  rw [asStates, finish, finish]
  by_cases empty : pending = []
  · rw [if_pos empty, if_pos empty]
  · rw [if_neg empty, if_neg empty, List.foldl_append]
    rfl

end LineScan

end HashArchive
