import HashArchive.Foundations.LineScan
import Mathlib.Data.List.TakeWhile

/-!
# Feeding the parser

`cmark_parser_feed` takes a text in pieces. `S_parser_feed` calls `S_process_line` for each line
of a piece, keeps what is left in `linebuf`, and remembers whether the piece ended with a CR, as
the LF of a CR LF may come with the next one. A NUL stands for a replacement character.
`page_critical` feeds its file in pieces of 8 KiB.

What `S_process_line` does with a line is a parameter here. `feedLoop_scan` says that the loop
reads its buffer as a reader of lines reads it byte by byte, so the lines are those of the text,
however it is cut (`lines_of_feeding`).

A NUL directly before a line end is the exception: the loop skips over the line end as if a line
had been processed (`nul_joins_lines`).
-/

set_option autoImplicit false

namespace HashArchive.Cmark

/-- What `S_parser_feed` uses of a `cmark_parser`; `state` is the rest, which belongs to
`S_process_line`. -/
structure Parser (σ : Type) where
  state : σ
  linebuf : List UInt8
  lastBufferEndedWithCr : Bool

/-- `S_is_line_end_char`. -/
def isLineEndChar (c : UInt8) : Bool := c = 10 || c = 13

/-- `repl`, the replacement character in UTF-8. -/
def repl : List UInt8 := [239, 191, 189]

/-- A byte that the search for `eol` passes. -/
def passes (c : UInt8) : Bool := !isLineEndChar c && c != 0

/-- The buffer behind its first byte, when that is a given one. -/
def skip (c : UInt8) (buffer : List UInt8) : List UInt8 :=
  if buffer.head? = some c then buffer.tail else buffer

section Feed

variable {σ : Type} (processLine : σ → List UInt8 → σ)

/-- The end of a line: what is buffered and the last part of it are processed. -/
def Parser.endLine (parser : Parser σ) (chunk : List UInt8) : Parser σ :=
  if parser.linebuf.length > 0 then
    { parser with state := processLine parser.state (parser.linebuf ++ chunk), linebuf := [] }
  else { parser with state := processLine parser.state chunk }

/-- One turn of the loop of `S_parser_feed`, and what is left of the buffer. -/
def feedTurn (eof : Bool) (parser : Parser σ) (buffer : List UInt8) : Parser σ × List UInt8 :=
  let chunk := buffer.takeWhile passes
  let eol := buffer.dropWhile passes
  let process := match eol with
    | [] => eof
    | c :: _ => isLineEndChar c
  let (parser, buffer) :=
    if process then (parser.endLine processLine chunk, eol)
    else if eol.head? = some 0 then
      ({ parser with linebuf := parser.linebuf ++ chunk ++ repl }, eol.tail)
    else ({ parser with linebuf := parser.linebuf ++ chunk }, eol)
  -- skip over line ending characters
  let parser := if buffer = [13] then { parser with lastBufferEndedWithCr := true } else parser
  (parser, skip 10 (skip 13 buffer))

theorem length_skip_le (c : UInt8) (buffer : List UInt8) :
    (skip c buffer).length ≤ buffer.length := by
  unfold skip
  split
  · rw [List.length_tail]
    exact Nat.sub_le _ _
  · exact Nat.le_refl _

section Turn

variable {processLine} {eof : Bool} {parser : Parser σ} {chunk rest : List UInt8}
  (passed : ∀ c ∈ chunk, passes c = true)

theorem takeWhile_passes {eol : List UInt8} (passed : ∀ c ∈ chunk, passes c = true)
    (stops : ∀ c ∈ eol.head?, passes c = false) :
    (chunk ++ eol).takeWhile passes = chunk ∧ (chunk ++ eol).dropWhile passes = eol := by
  rw [List.takeWhile_append_of_pos passed, List.dropWhile_append_of_pos passed]
  cases eol with
  | nil => exact ⟨List.append_nil chunk, rfl⟩
  | cons c eol =>
      have stop : ¬ passes c = true := by simp [stops c rfl]
      rw [List.takeWhile_cons_of_neg stop, List.dropWhile_cons_of_neg stop]
      exact ⟨List.append_nil chunk, rfl⟩

include passed

theorem feedTurn_nil : feedTurn processLine eof parser chunk =
    (if eof then parser.endLine processLine chunk
      else { parser with linebuf := parser.linebuf ++ chunk }, []) := by
  obtain ⟨front, back⟩ := @takeWhile_passes chunk [] passed nofun
  rw [List.append_nil] at front back
  rw [feedTurn, front, back]
  cases eof <;> rfl

theorem feedTurn_lf : feedTurn processLine eof parser (chunk ++ 10 :: rest) =
    (parser.endLine processLine chunk, rest) := by
  obtain ⟨front, back⟩ := @takeWhile_passes chunk (10 :: rest) passed (by rintro _ ⟨⟩; rfl)
  rw [feedTurn, front, back]
  rfl

theorem feedTurn_cr : feedTurn processLine eof parser (chunk ++ 13 :: rest) =
    (if rest = [] then { parser.endLine processLine chunk with lastBufferEndedWithCr := true }
      else parser.endLine processLine chunk, skip 10 rest) := by
  obtain ⟨front, back⟩ := @takeWhile_passes chunk (13 :: rest) passed (by rintro _ ⟨⟩; rfl)
  rw [feedTurn, front, back]
  cases rest <;> rfl

theorem feedTurn_nul : feedTurn processLine eof parser (chunk ++ 0 :: rest) =
    (if rest = [13] then { parser with
        linebuf := parser.linebuf ++ chunk ++ repl, lastBufferEndedWithCr := true }
      else { parser with linebuf := parser.linebuf ++ chunk ++ repl }, skip 10 (skip 13 rest)) := by
  obtain ⟨front, back⟩ := @takeWhile_passes chunk (0 :: rest) passed (by rintro _ ⟨⟩; rfl)
  rw [feedTurn, front, back]
  by_cases last : rest = [13]
  · rw [if_pos last, last]
    rfl
  · rw [if_neg last]
    show (if rest = [13] then _ else _, _) = _
    rw [if_neg last]
    rfl

end Turn

/-- A buffer is bytes that are passed and, unless it ends with them, a line end or a NUL. -/
theorem exists_chunk (buffer : List UInt8) :
    ∃ chunk, (∀ c ∈ chunk, passes c = true) ∧
      (buffer = chunk ∨ ∃ rest, buffer = chunk ++ 10 :: rest ∨ buffer = chunk ++ 13 :: rest ∨
        buffer = chunk ++ 0 :: rest) := by
  refine ⟨buffer.takeWhile passes, fun c => List.mem_takeWhile_imp, ?_⟩
  have split := List.takeWhile_append_dropWhile (p := passes) (l := buffer)
  cases stopped : buffer.dropWhile passes with
  | nil =>
      rw [stopped, List.append_nil] at split
      exact .inl split.symm
  | cons c rest =>
      rw [stopped] at split
      have stop : passes c = false := by
        have := List.head_dropWhile_not passes (l := buffer) (by simp [stopped])
        simpa [stopped] using this
      simp only [passes, isLineEndChar, Bool.and_eq_false_iff, Bool.not_eq_false', Bool.or_eq_true,
        decide_eq_true_eq, bne_eq_false_iff_eq] at stop
      refine .inr ⟨rest, ?_⟩
      rcases stop with (rfl | rfl) | rfl
      · exact .inl split.symm
      · exact .inr (.inl split.symm)
      · exact .inr (.inr split.symm)

theorem length_feedTurn_lt (eof : Bool) (parser : Parser σ) {buffer : List UInt8}
    (nonempty : buffer ≠ []) :
    (feedTurn processLine eof parser buffer).2.length < buffer.length := by
  obtain ⟨chunk, passed, rfl | ⟨rest, rfl | rfl | rfl⟩⟩ := exists_chunk buffer
  · rw [feedTurn_nil passed]
    exact List.length_pos_of_ne_nil nonempty
  · rw [feedTurn_lf passed, List.length_append, List.length_cons]
    show rest.length < _
    omega
  · have skipped := length_skip_le 10 rest
    rw [feedTurn_cr passed, List.length_append, List.length_cons]
    show (skip 10 rest).length < _
    omega
  · have skipped := length_skip_le 10 (skip 13 rest)
    have skippedCr := length_skip_le 13 rest
    rw [feedTurn_nul passed, List.length_append, List.length_cons]
    show (skip 10 (skip 13 rest)).length < _
    omega

/-- The loop of `S_parser_feed`. -/
def feedLoop (eof : Bool) (parser : Parser σ) (buffer : List UInt8) : Parser σ :=
  if _ : buffer = [] then parser
  else
    feedLoop eof (feedTurn processLine eof parser buffer).1
      (feedTurn processLine eof parser buffer).2
termination_by buffer.length
decreasing_by exact length_feedTurn_lt processLine eof parser ‹_›

theorem feedLoop_nil (eof : Bool) (parser : Parser σ) :
    feedLoop processLine eof parser [] = parser := by
  rw [feedLoop, dif_pos rfl]

theorem feedLoop_of_ne (eof : Bool) (parser : Parser σ) {buffer : List UInt8}
    (nonempty : buffer ≠ []) : feedLoop processLine eof parser buffer =
      feedLoop processLine eof (feedTurn processLine eof parser buffer).1
        (feedTurn processLine eof parser buffer).2 := by
  rw [feedLoop, dif_neg nonempty]

/-- `S_parser_feed`. -/
def sParserFeed (eof : Bool) (parser : Parser σ) (buffer : List UInt8) : Parser σ :=
  let buffer := if parser.lastBufferEndedWithCr then skip 10 buffer else buffer
  feedLoop processLine eof { parser with lastBufferEndedWithCr := false } buffer

/-- `cmark_parser_feed`. -/
def cmarkParserFeed (parser : Parser σ) (buffer : List UInt8) : Parser σ :=
  sParserFeed processLine false parser buffer

/-- `cmark_parser_finish`, up to `finalize_document`. -/
def cmarkParserFinish (parser : Parser σ) : σ :=
  if parser.linebuf.length > 0 then processLine parser.state parser.linebuf else parser.state

/-- `cmark_parser_new`. -/
def cmarkParserNew (state : σ) : Parser σ := ⟨state, [], false⟩

/-- `cmark_parse_document`, up to `finalize_document`. -/
def cmarkParseDocument (state : σ) (buffer : List UInt8) : σ :=
  cmarkParserFinish processLine (sParserFeed processLine true (cmarkParserNew state) buffer)

/-- The size of `buffer` in `page_critical`. -/
def criticalBufferSize : ℕ := 1024 * 8

/-- The loop of `page_critical` over what is left of the file. -/
def freadLoop (parser : Parser σ) (file : List UInt8) : Parser σ :=
  if _ : file.take criticalBufferSize = [] then parser
  else
    let parser := cmarkParserFeed processLine parser (file.take criticalBufferSize)
    if (file.take criticalBufferSize).length < criticalBufferSize then parser
    else freadLoop parser (file.drop criticalBufferSize)
termination_by file.length
decreasing_by
  have nonempty : 0 < (file.take criticalBufferSize).length := List.length_pos_of_ne_nil ‹_›
  have positive : 0 < criticalBufferSize := of_decide_eq_true rfl
  rw [List.length_take] at nonempty
  rw [List.length_drop]
  omega

/-- The parsing of `page_critical`, up to `finalize_document`. -/
def pageCriticalFeed (state : σ) (file : List UInt8) : σ :=
  cmarkParserFinish processLine (freadLoop processLine (cmarkParserNew state) file)

end Feed

/-! ## Lines -/

/-- What a byte of the text stands for in its line. -/
def readable (c : UInt8) : List UInt8 := if c = 0 then repl else [c]

/-- A NUL is directly before a line end. -/
def NulBeforeLineEnd (text : List UInt8) : Prop := [0, 10] <:+: text ∨ [0, 13] <:+: text

/-- A parser as a reader of lines. -/
def Parser.scan {σ : Type} (parser : Parser σ) : LineScan σ :=
  ⟨parser.state, parser.linebuf, parser.lastBufferEndedWithCr⟩

section Refinement

variable {σ : Type} {processLine : σ → List UInt8 → σ} {parser : Parser σ} {buffer chunk : List UInt8}

theorem scan_endLine : (parser.endLine processLine chunk).scan =
    ⟨processLine parser.state (parser.linebuf ++ chunk), [], parser.lastBufferEndedWithCr⟩ := by
  unfold Parser.endLine
  split
  · rfl
  · rename_i empty
    obtain ⟨state, linebuf, lastCr⟩ := parser
    obtain rfl : linebuf = [] := List.eq_nil_of_length_eq_zero (by simpa using empty)
    rfl

theorem foldl_passes (passed : ∀ c ∈ chunk, passes c = true)
    (fresh : parser.lastBufferEndedWithCr = false) :
    chunk.foldl (LineScan.byte readable processLine) parser.scan =
      ⟨parser.state, parser.linebuf ++ chunk, false⟩ := by
  rw [Parser.scan, fresh]
  refine LineScan.foldl_plain fun c member => ?_
  have passed := passed c member
  simp only [passes, isLineEndChar, Bool.and_eq_true, Bool.not_eq_true', Bool.or_eq_false_iff,
    decide_eq_false_iff_not, bne_iff_ne] at passed
  exact ⟨passed.1.1, passed.1.2, if_neg passed.2⟩

theorem skip_suffix (c : UInt8) (buffer : List UInt8) : skip c buffer <:+ buffer := by
  unfold skip
  split
  · exact List.tail_suffix buffer
  · exact List.suffix_rfl

theorem skip_of_ne {c : UInt8} (other : buffer.head? ≠ some c) : skip c buffer = buffer :=
  if_neg other

theorem calm_of_suffix {rest : List UInt8} (suffix : rest <:+ buffer)
    (calm : ¬ NulBeforeLineEnd buffer) : ¬ NulBeforeLineEnd rest :=
  fun either => calm (either.imp (·.trans suffix.isInfix) (·.trans suffix.isInfix))

/-- What follows a NUL does not start with a line end. -/
theorem head_of_calm {rest : List UInt8} (calm : ¬ NulBeforeLineEnd (chunk ++ 0 :: rest)) :
    rest.head? ≠ some 10 ∧ rest.head? ≠ some 13 := by
  have infix_of_head {c : UInt8} (head : rest.head? = some c) : [0, c] <:+: chunk ++ 0 :: rest := by
    obtain ⟨tail, rfl⟩ := List.head?_eq_some_iff.mp head
    exact ⟨chunk, tail, by simp⟩
  exact ⟨fun head => calm (.inl (infix_of_head head)), fun head => calm (.inr (infix_of_head head))⟩

/-- After a CR at the end of a turn, an LF is skipped, and anything else is read as usual. -/
theorem foldl_skip {rest : List UInt8} (nonempty : rest ≠ []) (state : σ) :
    (skip 10 rest).foldl (LineScan.byte readable processLine) ⟨state, [], false⟩ =
      rest.foldl (LineScan.byte readable processLine) ⟨state, [], true⟩ := by
  by_cases lf : rest.head? = some 10
  · obtain ⟨tail, rfl⟩ := List.head?_eq_some_iff.mp lf
    rfl
  · rw [skip_of_ne lf]
    exact (LineScan.foldl_afterCr lf nonempty true).symm

/-- **One turn of the loop** reads what it takes off the buffer. -/
theorem feedTurn_scan (fresh : parser.lastBufferEndedWithCr = false)
    (calm : ¬ NulBeforeLineEnd buffer) :
    (feedTurn processLine false parser buffer).2.foldl (LineScan.byte readable processLine)
        (feedTurn processLine false parser buffer).1.scan =
      buffer.foldl (LineScan.byte readable processLine) parser.scan ∧
    ((feedTurn processLine false parser buffer).2 ≠ [] →
      (feedTurn processLine false parser buffer).1.lastBufferEndedWithCr = false) ∧
    (feedTurn processLine false parser buffer).2 <:+ buffer := by
  have ended (chunk : List UInt8) : (parser.endLine processLine chunk).lastBufferEndedWithCr = false := by
    rw [← fresh]
    exact congrArg LineScan.afterCr (@scan_endLine _ processLine parser chunk)
  obtain ⟨chunk, passed, rfl | ⟨rest, rfl | rfl | rfl⟩⟩ := exists_chunk buffer
  · rw [feedTurn_nil passed, foldl_passes passed fresh]
    refine ⟨?_, fun rest => absurd rfl rest, List.nil_suffix⟩
    show (⟨_, _, parser.lastBufferEndedWithCr⟩ : LineScan σ) = _
    rw [fresh]
    rfl
  · rw [feedTurn_lf passed, List.foldl_append, foldl_passes passed fresh, List.foldl_cons,
      LineScan.byte_lf, scan_endLine, fresh]
    exact ⟨rfl, fun _ => ended chunk, (List.suffix_cons 10 rest).trans (List.suffix_append _ _)⟩
  · rw [feedTurn_cr passed, List.foldl_append, foldl_passes passed fresh, List.foldl_cons,
      LineScan.byte_cr]
    have suffix : skip 10 rest <:+ chunk ++ 13 :: rest := (skip_suffix 10 rest).trans
      ((List.suffix_cons 13 rest).trans (List.suffix_append _ _))
    by_cases empty : rest = []
    · rw [if_pos empty, empty]
      have scanned := @scan_endLine _ processLine parser chunk
      have called : (parser.endLine processLine chunk).state =
          processLine parser.state (parser.linebuf ++ chunk) := congrArg LineScan.state scanned
      have cleared : (parser.endLine processLine chunk).linebuf = [] :=
        congrArg LineScan.pending scanned
      refine ⟨?_, fun nonempty => absurd rfl nonempty, List.nil_suffix⟩
      show (⟨(parser.endLine processLine chunk).state, (parser.endLine processLine chunk).linebuf,
        true⟩ : LineScan σ) = _
      rw [called, cleared]
      rfl
    · rw [if_neg empty, scan_endLine, fresh]
      exact ⟨foldl_skip empty _, fun _ => ended chunk, suffix⟩
  · obtain ⟨notLf, notCr⟩ := head_of_calm calm
    have last : rest ≠ [13] := fun same => notCr (by rw [same]; rfl)
    rw [feedTurn_nul passed, List.foldl_append, foldl_passes passed fresh, List.foldl_cons,
      if_neg last, skip_of_ne notCr, skip_of_ne notLf, LineScan.byte_of_ne (by decide) (by decide)]
    refine ⟨?_, fun _ => fresh, (List.suffix_cons 0 rest).trans (List.suffix_append _ _)⟩
    rw [Parser.scan, fresh]
    rfl

/-- **The loop reads the buffer**, when it has no NUL directly before a line end. -/
theorem feedLoop_scan (fresh : parser.lastBufferEndedWithCr = false)
    (calm : ¬ NulBeforeLineEnd buffer) :
    (feedLoop processLine false parser buffer).scan =
      buffer.foldl (LineScan.byte readable processLine) parser.scan := by
  induction length : buffer.length using Nat.strong_induction_on generalizing parser buffer with
  | _ size ih =>
      by_cases empty : buffer = []
      · rw [empty, feedLoop_nil]
        rfl
      · rw [feedLoop_of_ne processLine false parser empty]
        obtain ⟨same, freshStill, suffix⟩ := @feedTurn_scan _ processLine _ _ fresh calm
        rw [← same]
        by_cases done : (feedTurn processLine false parser buffer).2 = []
        · rw [done, feedLoop_nil, List.foldl_nil]
        · exact ih _ (length ▸ length_feedTurn_lt processLine false parser empty) (freshStill done)
            (calm_of_suffix suffix calm) rfl

/-- **A buffer that is fed is read**, unless it is empty. -/
theorem cmarkParserFeed_scan (nonempty : buffer ≠ []) (calm : ¬ NulBeforeLineEnd buffer) :
    (cmarkParserFeed processLine parser buffer).scan =
      buffer.foldl (LineScan.byte readable processLine) parser.scan := by
  rw [cmarkParserFeed, sParserFeed]
  cases after : parser.lastBufferEndedWithCr with
  | false =>
      show (feedLoop processLine false _ buffer).scan = _
      rw [feedLoop_scan rfl calm, Parser.scan, Parser.scan, after]
  | true =>
      show (feedLoop processLine false _ (skip 10 buffer)).scan = _
      rw [feedLoop_scan rfl (calm_of_suffix (skip_suffix 10 buffer) calm)]
      by_cases lf : buffer.head? = some 10
      · obtain ⟨tail, rfl⟩ := List.head?_eq_some_iff.mp lf
        rw [Parser.scan, Parser.scan, after]
        rfl
      · rw [skip_of_ne lf, Parser.scan, Parser.scan, after]
        exact (LineScan.foldl_afterCr lf nonempty true).symm

/-- At the end of the file the loop processes the last line, which is otherwise left to
`cmark_parser_finish`. -/
theorem finish_feedLoop_eof :
    cmarkParserFinish processLine (feedLoop processLine true parser buffer) =
      cmarkParserFinish processLine (feedLoop processLine false parser buffer) := by
  induction length : buffer.length using Nat.strong_induction_on generalizing parser buffer with
  | _ size ih =>
      by_cases empty : buffer = []
      · rw [empty, feedLoop_nil, feedLoop_nil]
      · rw [feedLoop_of_ne processLine true parser empty,
          feedLoop_of_ne processLine false parser empty]
        obtain ⟨chunk, passed, rfl | ⟨rest, rfl | rfl | rfl⟩⟩ := exists_chunk buffer
        · rw [feedTurn_nil passed, feedTurn_nil passed, feedLoop_nil, feedLoop_nil]
          have scanned := @scan_endLine _ processLine parser buffer
          have called : (parser.endLine processLine buffer).state =
              processLine parser.state (parser.linebuf ++ buffer) := congrArg LineScan.state scanned
          have cleared : (parser.endLine processLine buffer).linebuf = [] :=
            congrArg LineScan.pending scanned
          have pending : (parser.linebuf ++ buffer).length > 0 := by
            rw [List.length_append]
            exact Nat.add_pos_right _ (List.length_pos_of_ne_nil empty)
          show (if (parser.endLine processLine buffer).linebuf.length > 0 then _ else
            (parser.endLine processLine buffer).state) =
              if (parser.linebuf ++ buffer).length > 0 then _ else _
          rw [if_pos pending, if_neg (by rw [cleared]; exact Nat.lt_irrefl 0), called]
          rfl
        · have shorter := length_feedTurn_lt processLine true parser empty
          rw [feedTurn_lf passed] at shorter
          rw [feedTurn_lf passed, feedTurn_lf passed]
          exact ih _ (length ▸ shorter) rfl
        · have shorter := length_feedTurn_lt processLine true parser empty
          rw [feedTurn_cr passed] at shorter
          rw [feedTurn_cr passed, feedTurn_cr passed]
          exact ih _ (length ▸ shorter) rfl
        · have shorter := length_feedTurn_lt processLine true parser empty
          rw [feedTurn_nul passed] at shorter
          rw [feedTurn_nul passed, feedTurn_nul passed]
          exact ih _ (length ▸ shorter) rfl

theorem finish_scan (parser : Parser σ) :
    cmarkParserFinish processLine parser = parser.scan.finish processLine := by
  rw [cmarkParserFinish, LineScan.finish, Parser.scan]
  cases parser.linebuf <;> rfl

end Refinement

/-! ## However the text is cut -/

section Chunks

variable {σ : Type} (processLine : σ → List UInt8 → σ) (state : σ)

theorem scan_feeds {parser : Parser σ} {chunks : List (List UInt8)}
    (nonempty : ∀ chunk ∈ chunks, chunk ≠ []) (calm : ∀ chunk ∈ chunks, ¬ NulBeforeLineEnd chunk) :
    (chunks.foldl (cmarkParserFeed processLine) parser).scan =
      chunks.flatten.foldl (LineScan.byte readable processLine) parser.scan := by
  induction chunks generalizing parser with
  | nil => rfl
  | cons chunk chunks ih =>
      obtain ⟨here, nonempty⟩ := List.forall_mem_cons.mp nonempty
      obtain ⟨calmHere, calm⟩ := List.forall_mem_cons.mp calm
      rw [List.foldl_cons, ih nonempty calm, cmarkParserFeed_scan here calmHere, List.flatten_cons,
        List.foldl_append]

/-- **Chunks are processed as the lines of the whole text**, when none is empty and none has a NUL
directly before a line end. -/
theorem feed_lines {chunks : List (List UInt8)} (nonempty : ∀ chunk ∈ chunks, chunk ≠ [])
    (calm : ∀ chunk ∈ chunks, ¬ NulBeforeLineEnd chunk) :
    cmarkParserFinish processLine (chunks.foldl (cmarkParserFeed processLine) (cmarkParserNew state)) =
      (LineScan.linesOf readable chunks.flatten).foldl processLine state := by
  rw [finish_scan, scan_feeds processLine nonempty calm]
  exact LineScan.finish_foldl state

/-- A text that is parsed at once is processed in its lines as well. -/
theorem parseDocument_lines {text : List UInt8} (calm : ¬ NulBeforeLineEnd text) :
    cmarkParseDocument processLine state text =
      (LineScan.linesOf readable text).foldl processLine state := by
  rw [cmarkParseDocument, sParserFeed]
  show cmarkParserFinish processLine (feedLoop processLine true (cmarkParserNew state) text) = _
  rw [finish_feedLoop_eof, finish_scan, feedLoop_scan rfl calm]
  exact LineScan.finish_foldl state

/-- The loop of `page_critical` reads the file. -/
theorem scan_freadLoop {parser : Parser σ} {file : List UInt8} (calm : ¬ NulBeforeLineEnd file) :
    (freadLoop processLine parser file).scan =
      file.foldl (LineScan.byte readable processLine) parser.scan := by
  induction length : file.length using Nat.strong_induction_on generalizing parser file with
  | _ size ih =>
      have whole := List.take_append_drop criticalBufferSize file
      have calmHere : ¬ NulBeforeLineEnd (file.take criticalBufferSize) :=
        fun either => calm (either.imp (·.trans (List.take_prefix _ file).isInfix)
          (·.trans (List.take_prefix _ file).isInfix))
      rw [freadLoop]
      by_cases empty : file.take criticalBufferSize = []
      · rw [dif_pos empty]
        rcases List.take_eq_nil_iff.mp empty with none | rfl
        · exact absurd none (by decide)
        · rfl
      · rw [dif_neg empty]
        by_cases short : (file.take criticalBufferSize).length < criticalBufferSize
        · rw [if_pos short, cmarkParserFeed_scan empty calmHere, List.take_of_length_le]
          rw [List.length_take] at short
          omega
        · have rest : (file.drop criticalBufferSize).length < size := by
            rw [List.length_drop, ← length]
            have positive : 0 < criticalBufferSize := by decide
            rw [List.length_take] at short
            omega
          rw [if_neg short, ih _ rest (calm_of_suffix (List.drop_suffix _ file) calm) rfl,
            cmarkParserFeed_scan empty calmHere, ← List.foldl_append, whole]

/-- **The lines do not depend on how a text is fed.** A text without a NUL directly before a line
end is processed in its lines by `page_critical`, when it is parsed at once, and when it is fed
in any pieces that are not empty. -/
theorem lines_of_feeding {text : List UInt8} (calm : ¬ NulBeforeLineEnd text) :
    pageCriticalFeed processLine state text =
        (LineScan.linesOf readable text).foldl processLine state ∧
      cmarkParseDocument processLine state text =
        (LineScan.linesOf readable text).foldl processLine state ∧
      ∀ chunks : List (List UInt8), chunks.flatten = text → (∀ chunk ∈ chunks, chunk ≠ []) →
        cmarkParserFinish processLine
          (chunks.foldl (cmarkParserFeed processLine) (cmarkParserNew state)) =
            (LineScan.linesOf readable text).foldl processLine state := by
  refine ⟨?_, parseDocument_lines processLine state calm, ?_⟩
  · rw [pageCriticalFeed, finish_scan, scan_freadLoop processLine calm]
    exact LineScan.finish_foldl state
  · rintro chunks rfl nonempty
    refine feed_lines processLine state nonempty fun chunk member either => calm ?_
    have inside := List.infix_of_mem_flatten member
    exact either.imp (·.trans inside) (·.trans inside)

/-- A NUL directly before a line end joins the two lines. -/
theorem nul_joins_lines {first second : List UInt8} (passedFirst : ∀ c ∈ first, passes c = true)
    (passedSecond : ∀ c ∈ second, passes c = true) (nonempty : second ≠ []) :
    cmarkParseDocument processLine state (first ++ 0 :: 10 :: second) =
        processLine state (first ++ repl ++ second) ∧
      LineScan.linesOf readable (first ++ 0 :: 10 :: second) = [first ++ repl, second] := by
  constructor
  · have turn : feedTurn processLine true (cmarkParserNew state) (first ++ 0 :: 10 :: second) =
        (⟨state, first ++ repl, false⟩, second) := by
      rw [feedTurn_nul passedFirst]
      rfl
    have last : feedTurn processLine true ⟨state, first ++ repl, false⟩ second =
        (Parser.endLine processLine ⟨state, first ++ repl, false⟩ second, []) :=
      feedTurn_nil passedSecond
    have buffered : (first ++ repl).length > 0 := by
      rw [List.length_append]
      exact Nat.add_pos_right _ (by decide)
    have joined : first ++ 0 :: 10 :: second ≠ [] := by simp
    rw [cmarkParseDocument, sParserFeed]
    show cmarkParserFinish processLine (feedLoop processLine true (cmarkParserNew state)
      (first ++ 0 :: 10 :: second)) = _
    rw [feedLoop_of_ne processLine true _ joined, turn,
      feedLoop_of_ne processLine true _ nonempty, last, feedLoop_nil, Parser.endLine, if_pos buffered]
    rfl
  · have read := @foldl_passes (List (List UInt8)) (fun lines line => lines ++ [line])
      (cmarkParserNew []) first passedFirst rfl
    have readLast := @foldl_passes (List (List UInt8)) (fun lines line => lines ++ [line])
      (cmarkParserNew [first ++ repl]) second passedSecond rfl
    rw [LineScan.linesOf, List.foldl_append]
    show LineScan.finish _ (List.foldl _ (List.foldl _ (cmarkParserNew []).scan first) _) = _
    rw [read]
    show LineScan.finish _ (List.foldl _ (cmarkParserNew [first ++ repl]).scan second) = _
    rw [readLast, LineScan.finish]
    exact if_neg nonempty

end Chunks

/-- A CR LF that is cut in the middle. -/
theorem lines_of_feeding_cut :
    cmarkParserFinish (fun lines line => lines ++ [line])
      ([[97, 13], [10, 98]].foldl (cmarkParserFeed fun lines line => lines ++ [line])
        (cmarkParserNew [])) = [[97], [98]] := by
  have calm : ¬ NulBeforeLineEnd [97, 13, 10, 98] := by
    rintro (inside | inside)
    · exact absurd (inside.subset List.mem_cons_self) (by decide)
    · exact absurd (inside.subset List.mem_cons_self) (by decide)
  exact (lines_of_feeding (fun lines line => lines ++ [line]) [] calm).2.2 [[97, 13], [10, 98]] rfl
    (by simp)

end HashArchive.Cmark
