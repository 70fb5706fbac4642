import HashArchive.Foundations.CProgram

/-!
# JSON

Values, and a reader of the text of a value. A text is a list of bytes; the reader takes
integers, strings, arrays and objects with spaces between them, and an escape of four
hexadecimal digits only for a byte of ASCII. A string has to be UTF-8 (`isUtf8`), with no
character written longer than it need be, no surrogate and nothing past U+10FFFF.

`Reads` says that a text is read as a value, whatever follows it. It has a rule for each way
to write a value (`Reads.integer`, `Reads.string`, `Reads.array`, `Reads.object`), so what a
program prints is shown to be read back along the structure of what it prints. The fuel of
the reader is the length of the text (`read_of_reads`), and a text is read as one value only.
No other values are read than those with strings of UTF-8 (`utf8_of_read`).
-/

set_option autoImplicit false

namespace HashArchive

/-- **The values of JSON**, with integers for numbers. -/
inductive Json where
  | null
  | bool (value : Bool)
  | integer (value : ℤ)
  | string (value : Str)
  | array (items : List Json)
  | object (members : List (Str × Json))

namespace Json

/-! ## UTF-8 -/

/-- What the bytes that continue a character are between, after its first byte; `none` for a
byte that begins no character. -/
def continuation (first : ℕ) : Option (List (ℕ × ℕ)) :=
  if first < 0x80 then some []
  else if first < 0xc2 then none
  else if first < 0xe0 then some [(0x80, 0xbf)]
  else if first = 0xe0 then some [(0xa0, 0xbf), (0x80, 0xbf)]
  else if first = 0xed then some [(0x80, 0x9f), (0x80, 0xbf)]
  else if first < 0xf0 then some [(0x80, 0xbf), (0x80, 0xbf)]
  else if first = 0xf0 then some [(0x90, 0xbf), (0x80, 0xbf), (0x80, 0xbf)]
  else if first < 0xf4 then some [(0x80, 0xbf), (0x80, 0xbf), (0x80, 0xbf)]
  else if first = 0xf4 then some [(0x80, 0x8f), (0x80, 0xbf), (0x80, 0xbf)]
  else none

/-- Some bytes are the rest of a character and then whole characters. -/
def isUtf8From : List (ℕ × ℕ) → Str → Bool
  | [], [] => true
  | _ :: _, [] => false
  | [], c :: rest =>
    match continuation c.toNat with
    | some ranges => isUtf8From ranges rest
    | none => false
  | (least, most) :: ranges, c :: rest =>
    decide (least ≤ c.toNat) && decide (c.toNat ≤ most) && isUtf8From ranges rest

/-- The bytes are UTF-8. -/
def isUtf8 (bytes : Str) : Bool := isUtf8From [] bytes

/-- The bytes of U+00E9, one byte of Latin-1, a surrogate, and a byte more than is needed. -/
example : isUtf8 ['\xc3', '\xa9'] = true ∧ isUtf8 ['\xe9'] = false ∧
    isUtf8 ['\xed', '\xa0', '\x80'] = false ∧ isUtf8 ['\xc0', '\xaf'] = false := by decide

theorem isUtf8_cons_of_lt {c : Char} (ascii : c.toNat < 0x80) (rest : Str) :
    isUtf8 (c :: rest) = isUtf8 rest := by
  rw [isUtf8, isUtf8From, continuation, if_pos ascii]
  rfl

/-- ASCII is UTF-8. -/
theorem isUtf8_of_ascii {text : Str} (ascii : ∀ c ∈ text, c.toNat < 0x80) : isUtf8 text = true := by
  induction text with
  | nil => rfl
  | cons c text ih =>
      obtain ⟨here, later⟩ := List.forall_mem_cons.mp ascii
      rw [isUtf8_cons_of_lt here, ih later]

theorem lt_of_continuation {first : ℕ} {ranges : List (ℕ × ℕ)}
    (begins : continuation first = some ranges) :
    first < 256 ∧ ∀ range ∈ ranges, range.2 < 256 := by
  unfold continuation at begins
  split_ifs at begins <;> cases begins <;> exact ⟨by omega, by decide⟩

/-- UTF-8 is made of bytes. -/
theorem lt_of_isUtf8From {ranges : List (ℕ × ℕ)} {bytes : Str}
    (utf8 : isUtf8From ranges bytes = true) (small : ∀ range ∈ ranges, range.2 < 256) :
    ∀ c ∈ bytes, c.toNat < 256 := by
  induction bytes generalizing ranges with
  | nil => exact List.forall_mem_nil _
  | cons c bytes ih =>
      cases ranges with
      | nil =>
          rw [isUtf8From] at utf8
          cases begins : continuation c.toNat with
          | none =>
              rw [begins] at utf8
              cases utf8
          | some ranges =>
              rw [begins] at utf8
              obtain ⟨here, later⟩ := lt_of_continuation begins
              exact List.forall_mem_cons.mpr ⟨here, ih utf8 later⟩
      | cons range ranges =>
          obtain ⟨least, most⟩ := range
          obtain ⟨bound, later⟩ := List.forall_mem_cons.mp small
          rw [isUtf8From, Bool.and_eq_true, Bool.and_eq_true, decide_eq_true_eq] at utf8
          obtain ⟨⟨-, atMost⟩, rest⟩ := utf8
          exact List.forall_mem_cons.mpr
            ⟨lt_of_le_of_lt (of_decide_eq_true atMost) bound, ih rest later⟩

theorem lt_of_isUtf8 {bytes : Str} (utf8 : isUtf8 bytes = true) : ∀ c ∈ bytes, c.toNat < 256 :=
  lt_of_isUtf8From utf8 (List.forall_mem_nil _)

/-! ## Reading -/

/-- The characters that may stand between tokens. -/
def isSpace (c : Char) : Bool := c ∈ [' ', '\n', '\t', '\r']

/-- What follows the spaces. -/
def skipSpace (text : Str) : Str := text.dropWhile isSpace

/-- The character that is meant by one after a backslash. -/
def unescape : Char → Option Char
  | '"' => some '"'
  | '\\' => some '\\'
  | '/' => some '/'
  | 'b' => some '\x08'
  | 'f' => some '\x0c'
  | 'n' => some '\n'
  | 'r' => some '\r'
  | 't' => some '\t'
  | _ => none

/-- The value of a hexadecimal digit. -/
def hexValue (c : Char) : Option ℕ :=
  if c.isDigit then some (c.toNat - '0'.toNat)
  else if 'a' ≤ c ∧ c ≤ 'f' then some (c.toNat - 'a'.toNat + 10)
  else if 'A' ≤ c ∧ c ≤ 'F' then some (c.toNat - 'A'.toNat + 10)
  else none

/-- The byte of ASCII that is meant by four digits. -/
def hexByte (a b c d : Char) : Option Char := do
  let code := (((← hexValue a) * 16 + (← hexValue b)) * 16 + (← hexValue c)) * 16 + (← hexValue d)
  if code < 0x80 then some (Char.ofNat code) else none

/-- One more character before what was read. -/
def prepend (c : Char) (read : Str × Str) : Str × Str := (c :: read.1, read.2)

/-- What is between quotes, after the first of them. -/
def readChars : Str → Option (Str × Str)
  | [] => none
  | '"' :: rest => some ([], rest)
  | '\\' :: 'u' :: a :: b :: c :: d :: rest => do
    let byte ← hexByte a b c d
    (readChars rest).map (prepend byte)
  | '\\' :: escape :: rest => do
    let byte ← unescape escape
    (readChars rest).map (prepend byte)
  | c :: rest =>
    if c = '\\' ∨ c.toNat < 0x20 then none else (readChars rest).map (prepend c)

/-- A string, after the first quote. -/
def readString (text : Str) : Option (Str × Str) :=
  (readChars text).filter fun read => isUtf8 read.1

/-- A number without a sign, a fraction or an exponent. -/
def readNatural (text : Str) : Option (ℕ × Str) :=
  let digits := text.takeWhile Char.isDigit
  if digits = [] ∨ (digits.head? = some '0' ∧ digits ≠ ['0']) then none
  else some (Nat.ofDigitChars 10 digits 0, text.dropWhile Char.isDigit)

/-- A number without a fraction or an exponent. -/
def readInteger : Str → Option (ℤ × Str)
  | '-' :: rest => (readNatural rest).map fun read => (-read.1, read.2)
  | text => (readNatural text).map fun read => (read.1, read.2)

mutual

/-- A value, after spaces. -/
def readValue : ℕ → Str → Option (Json × Str)
  | 0, _ => none
  | fuel + 1, text =>
    match skipSpace text with
    | '"' :: rest => (readString rest).map fun read => (.string read.1, read.2)
    | '[' :: rest =>
      match skipSpace rest with
      | ']' :: rest => some (.array [], rest)
      | _ => (readItems fuel rest).map fun read => (.array read.1, read.2)
    | '{' :: rest =>
      match skipSpace rest with
      | '}' :: rest => some (.object [], rest)
      | _ => (readMembers fuel rest).map fun read => (.object read.1, read.2)
    | 'n' :: 'u' :: 'l' :: 'l' :: rest => some (.null, rest)
    | 't' :: 'r' :: 'u' :: 'e' :: rest => some (.bool true, rest)
    | 'f' :: 'a' :: 'l' :: 's' :: 'e' :: rest => some (.bool false, rest)
    | text => (readInteger text).map fun read => (.integer read.1, read.2)

/-- The items of an array that is not empty, and its end. -/
def readItems : ℕ → Str → Option (List Json × Str)
  | 0, _ => none
  | fuel + 1, text => do
    let (item, rest) ← readValue fuel text
    match skipSpace rest with
    | ',' :: rest => (readItems fuel rest).map fun read => (item :: read.1, read.2)
    | ']' :: rest => some ([item], rest)
    | _ => none

/-- The members of an object that is not empty, and its end. -/
def readMembers : ℕ → Str → Option (List (Str × Json) × Str)
  | 0, _ => none
  | fuel + 1, text => do
    match skipSpace text with
    | '"' :: rest =>
      let (key, rest) ← readString rest
      match skipSpace rest with
      | ':' :: rest =>
        let (value, rest) ← readValue fuel rest
        match skipSpace rest with
        | ',' :: rest => (readMembers fuel rest).map fun read => ((key, value) :: read.1, read.2)
        | '}' :: rest => some ([(key, value)], rest)
        | _ => none
      | _ => none
    | _ => none

end

-- The equations of the readers are made here once; each proof below would wait for them otherwise.
attribute [local simp] readValue readItems readMembers

/-- **The value of a text**, if the whole text is one. -/
def read (text : Str) : Option Json := do
  let (value, rest) ← readValue text.length text
  if skipSpace rest = [] then some value else none

/-! ## Spaces -/

/-- A text that is skipped. -/
def Spaces (text : Str) : Prop := ∀ c ∈ text, isSpace c = true

@[simp] theorem spaces_nil : Spaces [] := by simp [Spaces]

theorem skipSpace_append {spaces : Str} (space : Spaces spaces) (text : Str) :
    skipSpace (spaces ++ text) = skipSpace text :=
  List.dropWhile_append_of_pos space

theorem skipSpace_of_head {c : Char} {text : Str} (visible : isSpace c = false) :
    skipSpace (c :: text) = c :: text := by
  rw [skipSpace, List.dropWhile_cons, visible]
  rfl

/-- What a number may be followed by. -/
def Delimited (rest : Str) : Prop := ∀ c ∈ rest.head?, c.isDigit = false

theorem delimited_of_head {c : Char} {rest : Str} (plain : c.isDigit = false) :
    Delimited (c :: rest) := by
  intro d isHead
  cases isHead
  exact plain

theorem isDigit_of_isSpace {c : Char} (space : isSpace c = true) : c.isDigit = false := by
  rw [isSpace, decide_eq_true_eq] at space
  simp only [List.mem_cons, List.not_mem_nil, or_false] at space
  rcases space with rfl | rfl | rfl | rfl <;> rfl

/-- Spaces delimit a number, and so does a token after them. -/
theorem delimited_spaces {spaces : Str} (space : Spaces spaces) {c : Char} {rest : Str}
    (plain : c.isDigit = false) : Delimited (spaces ++ c :: rest) := by
  cases spaces with
  | nil => exact delimited_of_head plain
  | cons d spaces =>
      exact delimited_of_head (isDigit_of_isSpace (space d List.mem_cons_self))

/-! ## Texts that are read -/

/-- **A text is read as a value**, whatever follows it. -/
def Reads (value : Json) (text : Str) : Prop :=
  ∀ fuel rest, text.length ≤ fuel → Delimited rest →
    readValue fuel (text ++ rest) = some (value, rest)

/-- A text is read as the items of an array and its end. -/
structure ReadsItems (items : List Json) (text : Str) : Prop where
  opens : ∀ rest after, skipSpace (text ++ rest) ≠ ']' :: after
  reads : ∀ fuel rest, text.length ≤ fuel → readItems fuel (text ++ rest) = some (items, rest)

/-- A text is read as the members of an object and its end. -/
structure ReadsMembers (members : List (Str × Json)) (text : Str) : Prop where
  opens : ∀ rest after, skipSpace (text ++ rest) ≠ '}' :: after
  reads : ∀ fuel rest, text.length ≤ fuel → readMembers fuel (text ++ rest) = some (members, rest)

/-- A text within quotes is read as a character. -/
def Spells (c : Char) (text : Str) : Prop :=
  ∀ rest, readChars (text ++ rest) = (readChars rest).map (prepend c)

/-- **Characters are read** one after the other up to the quote. -/
theorem readChars_flatMap {spell : Char → Str} {value : Str}
    (spells : ∀ c ∈ value, Spells c (spell c)) (rest : Str) :
    readChars (value.flatMap spell ++ '"' :: rest) = some (value, rest) := by
  induction value with
  | nil =>
      rw [List.flatMap_nil, List.nil_append, readChars]
  | cons c value ih =>
      obtain ⟨here, later⟩ := List.forall_mem_cons.mp spells
      rw [List.flatMap_cons, List.append_assoc, here, ih later]
      rfl

/-- Characters that are UTF-8 are read as a string. -/
theorem readString_flatMap {spell : Char → Str} {value : Str}
    (spells : ∀ c ∈ value, Spells c (spell c)) (utf8 : isUtf8 value = true) (rest : Str) :
    readString (value.flatMap spell ++ '"' :: rest) = some (value, rest) := by
  rw [readString, readChars_flatMap spells, Option.filter_some, if_pos utf8]

/-! ## Integers -/

/-- The text of an integer. -/
def integerText (value : ℤ) : Str :=
  if value < 0 then '-' :: Nat.toDigits 10 value.natAbs else Nat.toDigits 10 value.natAbs

theorem takeWhile_toDigits (value : ℕ) {rest : Str} (delimited : Delimited rest) :
    (Nat.toDigits 10 value ++ rest).takeWhile Char.isDigit = Nat.toDigits 10 value ∧
      (Nat.toDigits 10 value ++ rest).dropWhile Char.isDigit = rest := by
  have digits : ∀ c ∈ Nat.toDigits 10 value, c.isDigit = true := fun c member =>
    Nat.isDigit_of_mem_toDigits (by decide) (by decide) member
  rw [List.takeWhile_append_of_pos digits, List.dropWhile_append_of_pos digits]
  cases rest with
  | nil => simp
  | cons c rest =>
      have plain := delimited c rfl
      simp [plain]

/-- Only zero begins with a zero. -/
theorem head?_toDigits (value : ℕ) (zero : (Nat.toDigits 10 value).head? = some '0') :
    Nat.toDigits 10 value = ['0'] := by
  induction value using Nat.strong_induction_on with
  | _ value ih =>
      by_cases small : value < 10
      · rw [Nat.toDigits_of_lt_base small] at zero ⊢
        exact congrArg (fun c => [c]) (Option.some.inj zero)
      · rw [Nat.toDigits_of_base_le (by decide) (Nat.le_of_not_lt small)] at zero
        have shorter : value / 10 < value := Nat.div_lt_self (by omega) (by decide)
        have positive : value / 10 ≠ 0 := by omega
        obtain ⟨c, digits, split⟩ := List.exists_cons_of_ne_nil (@Nat.toDigits_ne_nil (value / 10) 10)
        rw [split, List.cons_append] at zero
        have same := ih (value / 10) shorter (by rw [split]; exact zero)
        have value_eq := @Nat.ofDigitChars_ten_toDigits (value / 10)
        rw [same] at value_eq
        exact absurd value_eq.symm positive

theorem readNatural_toDigits (value : ℕ) {rest : Str} (delimited : Delimited rest) :
    readNatural (Nat.toDigits 10 value ++ rest) = some (value, rest) := by
  obtain ⟨digits, after⟩ := takeWhile_toDigits value delimited
  unfold readNatural
  dsimp only
  rw [digits, after, Nat.ofDigitChars_ten_toDigits, if_neg]
  rintro (empty | ⟨zero, more⟩)
  · exact Nat.toDigits_ne_nil empty
  · exact more (head?_toDigits value zero)

/-- The first character of a natural number. -/
theorem exists_toDigits_cons (value : ℕ) : ∃ c digits, Nat.toDigits 10 value = c :: digits ∧
    c.isDigit = true := by
  obtain ⟨c, digits, split⟩ := List.exists_cons_of_ne_nil (@Nat.toDigits_ne_nil value 10)
  refine ⟨c, digits, split, Nat.isDigit_of_mem_toDigits (b := 10) (n := value) (by decide)
    (by decide) ?_⟩
  rw [split]
  exact List.mem_cons_self

theorem readInteger_integerText (value : ℤ) {rest : Str} (delimited : Delimited rest) :
    readInteger (integerText value ++ rest) = some (value, rest) := by
  unfold integerText
  split_ifs with negative
  · rw [List.cons_append, readInteger, readNatural_toDigits _ delimited, Option.map_some]
    congr 2
    omega
  · obtain ⟨c, digits, split, digit⟩ := exists_toDigits_cons value.natAbs
    have natural := readNatural_toDigits value.natAbs delimited
    rw [split, List.cons_append] at natural ⊢
    rw [readInteger, natural, Option.map_some]
    · congr 2
      omega
    · rintro _ ⟨rfl, -⟩
      cases digit

/-- What begins like a number is read as one. -/
theorem readValue_number {c : Char} {text : Str} (begins : c = '-' ∨ c.isDigit = true) (fuel : ℕ) :
    readValue (fuel + 1) (c :: text) =
      (readInteger (c :: text)).map fun read => (.integer read.1, read.2) := by
  have visible : isSpace c = false := by
    rw [isSpace, decide_eq_false_iff_not]
    intro member
    simp only [List.mem_cons, List.not_mem_nil, or_false] at member
    rcases member with rfl | rfl | rfl | rfl <;> rcases begins with begins | begins <;> cases begins
  have symbol : c ≠ '"' ∧ c ≠ '[' ∧ c ≠ '{' ∧ c ≠ 'n' ∧ c ≠ 't' ∧ c ≠ 'f' := by
    refine ⟨?_, ?_, ?_, ?_, ?_, ?_⟩ <;>
      (rintro rfl; rcases begins with begins | begins <;> cases begins)
  rw [readValue, skipSpace_of_head visible]
  split <;> simp_all

theorem Reads.integer (value : ℤ) : Reads (.integer value) (integerText value) := by
  intro fuel rest enough delimited
  have read := readInteger_integerText value delimited
  have nonempty : ∃ c digits, integerText value = c :: digits ∧ (c = '-' ∨ c.isDigit = true) := by
    unfold integerText
    split_ifs
    · exact ⟨'-', _, rfl, .inl rfl⟩
    · obtain ⟨c, digits, split, digit⟩ := exists_toDigits_cons value.natAbs
      exact ⟨c, digits, split, .inr digit⟩
  obtain ⟨c, digits, split, begins⟩ := nonempty
  rw [split] at read enough ⊢
  obtain ⟨fuel, rfl⟩ := Nat.exists_eq_add_of_le' (Nat.le_trans (Nat.succ_le_succ (Nat.zero_le _)) enough)
  rw [List.cons_append] at read ⊢
  rw [readValue_number begins, read]
  rfl

/-! ## Words, strings, arrays and objects -/

theorem Reads.null : Reads .null "null".toList := by
  intro fuel rest enough delimited
  obtain ⟨fuel, rfl⟩ := Nat.exists_eq_add_of_le' (show 1 ≤ fuel from Nat.le_trans (by decide) enough)
  rw [show "null".toList ++ rest = 'n' :: 'u' :: 'l' :: 'l' :: rest from rfl, readValue,
    skipSpace_of_head (by decide)]
  rfl

theorem Reads.bool (value : Bool) :
    Reads (.bool value) (if value then "true".toList else "false".toList) := by
  intro fuel rest enough delimited
  cases value with
  | true =>
      obtain ⟨fuel, rfl⟩ :=
        Nat.exists_eq_add_of_le' (show 1 ≤ fuel from Nat.le_trans (by decide) enough)
      rw [if_pos rfl, show "true".toList ++ rest = 't' :: 'r' :: 'u' :: 'e' :: rest from rfl,
        readValue, skipSpace_of_head (by decide)]
      rfl
  | false =>
      obtain ⟨fuel, rfl⟩ :=
        Nat.exists_eq_add_of_le' (show 1 ≤ fuel from Nat.le_trans (by decide) enough)
      rw [if_neg (by decide),
        show "false".toList ++ rest = 'f' :: 'a' :: 'l' :: 's' :: 'e' :: rest from rfl,
        readValue, skipSpace_of_head (by decide)]
      rfl

theorem readValue_quote (fuel : ℕ) (text : Str) :
    readValue (fuel + 1) ('"' :: text) =
      (readString text).map fun read => (.string read.1, read.2) := by
  rw [readValue, skipSpace_of_head (by decide)]
  rfl

theorem readValue_bracket (fuel : ℕ) (text : Str) :
    readValue (fuel + 1) ('[' :: text) =
      match skipSpace text with
      | ']' :: rest => some (.array [], rest)
      | _ => (readItems fuel text).map fun read => (.array read.1, read.2) := by
  rw [readValue, skipSpace_of_head (by decide)]
  rfl

theorem readValue_brace (fuel : ℕ) (text : Str) :
    readValue (fuel + 1) ('{' :: text) =
      match skipSpace text with
      | '}' :: rest => some (.object [], rest)
      | _ => (readMembers fuel text).map fun read => (.object read.1, read.2) := by
  rw [readValue, skipSpace_of_head (by decide)]
  rfl

/-- No value begins with the end of an array. -/
theorem readValue_close (fuel : ℕ) (text after : Str) (closes : skipSpace text = ']' :: after) :
    readValue fuel text = none := by
  cases fuel with
  | zero => rw [readValue]
  | succ fuel =>
      rw [readValue, closes]
      rfl

/-- The text of a string, of which `spell` writes each character. -/
def quoted (spell : Char → Str) (value : Str) : Str := '"' :: (value.flatMap spell ++ ['"'])

theorem Reads.string {spell : Char → Str} {value : Str} (spells : ∀ c ∈ value, Spells c (spell c))
    (utf8 : isUtf8 value = true) : Reads (.string value) (quoted spell value) := by
  intro fuel rest enough delimited
  obtain ⟨fuel, rfl⟩ := Nat.exists_eq_add_of_le' (Nat.le_trans (Nat.succ_le_succ (Nat.zero_le _)) enough)
  rw [quoted, List.cons_append, List.append_assoc, List.singleton_append, readValue_quote,
    readString_flatMap spells utf8]
  rfl

/-- Spaces before a value. -/
theorem Reads.spaces {value : Json} {text spaces : Str} (reads : Reads value text)
    (space : Spaces spaces) : Reads value (spaces ++ text) := by
  intro fuel rest enough delimited
  rw [List.length_append] at enough
  have read := reads fuel rest (by omega) delimited
  cases fuel with
  | zero => cases read
  | succ fuel =>
      rw [readValue] at read ⊢
      rw [List.append_assoc, skipSpace_append space]
      exact read

/-- What is read as a value does not end an array. -/
theorem Reads.head_ne {value : Json} {text : Str} (reads : Reads value text) {rest after : Str}
    (delimited : Delimited rest) : skipSpace (text ++ rest) ≠ ']' :: after := by
  intro closes
  have read := reads (text.length + 1) rest (Nat.le_succ _) delimited
  rw [readValue_close _ _ _ closes] at read
  cases read

/-- The last item of an array. -/
theorem ReadsItems.last {item : Json} {text spaces : Str} (reads : Reads item text)
    (space : Spaces spaces) : ReadsItems [item] (text ++ (spaces ++ [']'])) where
  opens := by
    intro rest after
    rw [List.append_assoc, List.append_assoc]
    exact reads.head_ne (delimited_spaces space (by decide))
  reads := by
    intro fuel rest enough
    simp only [List.length_append, List.length_singleton] at enough
    obtain ⟨fuel, rfl⟩ := Nat.exists_eq_add_of_le' (show 1 ≤ fuel by omega)
    rw [List.append_assoc, List.append_assoc, List.singleton_append, readItems,
      reads fuel _ (by omega) (delimited_spaces space (by decide)), Option.bind_eq_bind,
      Option.bind_some]
    dsimp only
    rw [skipSpace_append space, skipSpace_of_head (by decide)]
    rfl

/-- An item that more follow. -/
theorem ReadsItems.more {item : Json} {items : List Json} {text spaces body : Str}
    (reads : Reads item text) (space : Spaces spaces) (others : ReadsItems items body) :
    ReadsItems (item :: items) (text ++ (spaces ++ ',' :: body)) where
  opens := by
    intro rest after
    rw [List.append_assoc, List.append_assoc]
    exact reads.head_ne (delimited_spaces space (by decide))
  reads := by
    intro fuel rest enough
    simp only [List.length_append, List.length_cons] at enough
    obtain ⟨fuel, rfl⟩ := Nat.exists_eq_add_of_le' (show 1 ≤ fuel by omega)
    rw [List.append_assoc, List.append_assoc, List.cons_append, readItems,
      reads fuel _ (by omega) (delimited_spaces space (by decide)), Option.bind_eq_bind,
      Option.bind_some]
    dsimp only
    rw [skipSpace_append space, skipSpace_of_head (by decide)]
    show (readItems fuel (body ++ rest)).map (fun read => (item :: read.1, read.2)) = _
    rw [others.reads fuel rest (by omega)]
    rfl

theorem Reads.array_nil {spaces : Str} (space : Spaces spaces) :
    Reads (.array []) ('[' :: (spaces ++ [']'])) := by
  intro fuel rest enough delimited
  obtain ⟨fuel, rfl⟩ := Nat.exists_eq_add_of_le' (Nat.le_trans (Nat.succ_le_succ (Nat.zero_le _)) enough)
  rw [List.cons_append, List.append_assoc, List.singleton_append, readValue_bracket,
    skipSpace_append space, skipSpace_of_head (by decide)]
  rfl

/-- An array that is not empty. -/
theorem Reads.array {items : List Json} {text : Str} (reads : ReadsItems items text) :
    Reads (.array items) ('[' :: text) := by
  intro fuel rest enough _
  rw [List.length_cons] at enough
  obtain ⟨fuel, rfl⟩ := Nat.exists_eq_add_of_le' (show 1 ≤ fuel by omega)
  rw [List.cons_append, readValue_bracket]
  split
  · rename_i closes
    exact absurd closes (reads.opens rest _)
  · rw [reads.reads fuel rest (by omega)]
    rfl

/-- What is read as the members of an object begins with a quote. -/
theorem quoted_ne {spaces rest after : Str} (space : Spaces spaces) :
    skipSpace (spaces ++ '"' :: rest) ≠ '}' :: after := by
  rw [skipSpace_append space, skipSpace_of_head (by decide)]
  rintro ⟨⟩

/-- The key of a member, after spaces. -/
theorem readMembers_key {spell : Char → Str} {key spaces between : Str}
    (spells : ∀ c ∈ key, Spells c (spell c)) (utf8 : isUtf8 key = true) (before : Spaces spaces)
    (space : Spaces between) (fuel : ℕ) (rest : Str) :
    readMembers (fuel + 1) (spaces ++ (quoted spell key ++ (between ++ ':' :: rest))) = (do
      let (value, rest) ← readValue fuel rest
      match skipSpace rest with
      | ',' :: rest => (readMembers fuel rest).map fun read => ((key, value) :: read.1, read.2)
      | '}' :: rest => some ([(key, value)], rest)
      | _ => none) := by
  rw [quoted, List.cons_append, List.append_assoc, List.singleton_append, readMembers,
    skipSpace_append before, skipSpace_of_head (by decide)]
  show (readString (key.flatMap spell ++ '"' :: (between ++ ':' :: rest))).bind _ = _
  rw [readString_flatMap spells utf8, Option.bind_some]
  dsimp only
  rw [skipSpace_append space, skipSpace_of_head (by decide)]
  rfl

/-- The last member of an object. -/
theorem ReadsMembers.last {spell : Char → Str} {key : Str} {value : Json}
    {before between text after : Str} (spells : ∀ c ∈ key, Spells c (spell c))
    (utf8 : isUtf8 key = true) (spacesBefore : Spaces before) (spacesBetween : Spaces between)
    (reads : Reads value text) (spacesAfter : Spaces after) :
    ReadsMembers [(key, value)]
      (before ++ (quoted spell key ++ (between ++ ':' :: (text ++ (after ++ ['}']))))) where
  opens := by
    intro rest left
    simp only [quoted, List.append_assoc, List.cons_append]
    exact quoted_ne spacesBefore
  reads := by
    intro fuel rest enough
    simp only [List.length_append, List.length_cons, List.length_nil] at enough
    obtain ⟨fuel, rfl⟩ := Nat.exists_eq_add_of_le' (show 1 ≤ fuel by omega)
    simp only [List.append_assoc, List.cons_append, List.nil_append]
    rw [readMembers_key spells utf8 spacesBefore spacesBetween,
      reads fuel _ (by omega) (delimited_spaces spacesAfter (by decide)), Option.bind_eq_bind,
      Option.bind_some]
    dsimp only
    rw [skipSpace_append spacesAfter, skipSpace_of_head (by decide)]
    rfl

/-- A member that more follow. -/
theorem ReadsMembers.more {spell : Char → Str} {key : Str} {value : Json}
    {members : List (Str × Json)} {before between text after body : Str}
    (spells : ∀ c ∈ key, Spells c (spell c)) (utf8 : isUtf8 key = true)
    (spacesBefore : Spaces before) (spacesBetween : Spaces between) (reads : Reads value text)
    (spacesAfter : Spaces after) (others : ReadsMembers members body) :
    ReadsMembers ((key, value) :: members)
      (before ++ (quoted spell key ++ (between ++ ':' :: (text ++ (after ++ ',' :: body))))) where
  opens := by
    intro rest left
    simp only [quoted, List.append_assoc, List.cons_append]
    exact quoted_ne spacesBefore
  reads := by
    intro fuel rest enough
    simp only [List.length_append, List.length_cons] at enough
    obtain ⟨fuel, rfl⟩ := Nat.exists_eq_add_of_le' (show 1 ≤ fuel by omega)
    simp only [List.append_assoc, List.cons_append]
    rw [readMembers_key spells utf8 spacesBefore spacesBetween,
      reads fuel _ (by omega) (delimited_spaces spacesAfter (by decide)), Option.bind_eq_bind,
      Option.bind_some]
    dsimp only
    rw [skipSpace_append spacesAfter, skipSpace_of_head (by decide)]
    show (readMembers fuel (body ++ rest)).map (fun read => ((key, value) :: read.1, read.2)) = _
    rw [others.reads fuel rest (by omega)]
    rfl

theorem Reads.object_nil {spaces : Str} (space : Spaces spaces) :
    Reads (.object []) ('{' :: (spaces ++ ['}'])) := by
  intro fuel rest enough delimited
  obtain ⟨fuel, rfl⟩ := Nat.exists_eq_add_of_le' (Nat.le_trans (Nat.succ_le_succ (Nat.zero_le _)) enough)
  rw [List.cons_append, List.append_assoc, List.singleton_append, readValue_brace,
    skipSpace_append space, skipSpace_of_head (by decide)]
  rfl

/-- An object that is not empty. -/
theorem Reads.object {members : List (Str × Json)} {text : Str}
    (reads : ReadsMembers members text) : Reads (.object members) ('{' :: text) := by
  intro fuel rest enough _
  rw [List.length_cons] at enough
  obtain ⟨fuel, rfl⟩ := Nat.exists_eq_add_of_le' (show 1 ≤ fuel by omega)
  rw [List.cons_append, readValue_brace]
  split
  · rename_i closes
    exact absurd closes (reads.opens rest _)
  · rw [reads.reads fuel rest (by omega)]
    rfl

/-- **A text that is read as a value is that value**, with spaces after it. -/
theorem read_of_reads {value : Json} {text after : Str} (reads : Reads value text)
    (space : Spaces after) : read (text ++ after) = some value := by
  have delimited : Delimited after := by
    cases after with
    | nil => simp [Delimited]
    | cons c after =>
        exact delimited_of_head (isDigit_of_isSpace (space c List.mem_cons_self))
  have nothing : skipSpace after = [] := by
    have skipped := skipSpace_append space []
    rwa [List.append_nil] at skipped
  rw [read, reads _ _ (by simp) delimited, Option.bind_eq_bind, Option.bind_some]
  dsimp only
  rw [nothing, if_pos rfl]

/-! ## What is read -/

mutual

/-- The strings and the keys of a value are UTF-8. -/
def Utf8 : Json → Prop
  | .string value => isUtf8 value = true
  | .array items => Utf8Items items
  | .object members => Utf8Members members
  | _ => True

/-- The strings and the keys of some values are UTF-8. -/
def Utf8Items : List Json → Prop
  | [] => True
  | item :: items => Utf8 item ∧ Utf8Items items

/-- The keys of some members are UTF-8, and so are the strings and the keys of their values. -/
def Utf8Members : List (Str × Json) → Prop
  | [] => True
  | (key, value) :: members => isUtf8 key = true ∧ Utf8 value ∧ Utf8Members members

end

theorem utf8Items_iff {items : List Json} : Utf8Items items ↔ ∀ item ∈ items, Utf8 item := by
  induction items with
  | nil => exact iff_of_true trivial (List.forall_mem_nil _)
  | cons item items ih => rw [Utf8Items, ih, List.forall_mem_cons]

theorem isUtf8_of_readString {text : Str} {read : Str × Str} (done : readString text = some read) :
    isUtf8 read.1 = true := by
  rw [readString, Option.filter_eq_some_iff] at done
  exact done.2

/-- **Whatever is read is UTF-8**, by induction on the fuel of the three readers. -/
theorem utf8_of_readers (fuel : ℕ) :
    (∀ text read, readValue fuel text = some read → Utf8 read.1) ∧
    (∀ text read, readItems fuel text = some read → Utf8Items read.1) ∧
    ∀ text read, readMembers fuel text = some read → Utf8Members read.1 := by
  induction fuel with
  | zero =>
      refine ⟨fun text read done => ?_, fun text read done => ?_, fun text read done => ?_⟩
      · rw [readValue] at done
        cases done
      · rw [readItems] at done
        cases done
      · rw [readMembers] at done
        cases done
  | succ fuel ih =>
      obtain ⟨values, items, members⟩ := ih
      refine ⟨fun text read done => ?_, fun text read done => ?_, fun text read done => ?_⟩
      · rw [readValue] at done
        split at done
        case h_1 =>
          obtain ⟨_, string, rfl⟩ := Option.map_eq_some_iff.mp done
          exact isUtf8_of_readString string
        case h_2 =>
          split at done
          · cases done
            trivial
          · obtain ⟨_, inside, rfl⟩ := Option.map_eq_some_iff.mp done
            exact items _ _ inside
        case h_3 =>
          split at done
          · cases done
            trivial
          · obtain ⟨_, inside, rfl⟩ := Option.map_eq_some_iff.mp done
            exact members _ _ inside
        case h_7 =>
          obtain ⟨_, -, rfl⟩ := Option.map_eq_some_iff.mp done
          trivial
        all_goals
          cases done
          trivial
      · rw [readItems] at done
        obtain ⟨⟨item, rest⟩, first, done⟩ := Option.bind_eq_some_iff.mp done
        have here : Utf8 item := values _ _ first
        dsimp only at done
        split at done
        · obtain ⟨_, others, rfl⟩ := Option.map_eq_some_iff.mp done
          exact ⟨here, items _ _ others⟩
        · cases done
          exact ⟨here, trivial⟩
        · cases done
      · rw [readMembers] at done
        split at done
        case h_2 => cases done
        obtain ⟨⟨key, rest⟩, named, done⟩ := Option.bind_eq_some_iff.mp done
        have keyed : isUtf8 key = true := isUtf8_of_readString named
        dsimp only at done
        split at done
        case h_2 => cases done
        obtain ⟨⟨value, rest⟩, first, done⟩ := Option.bind_eq_some_iff.mp done
        have here : Utf8 value := values _ _ first
        dsimp only at done
        split at done
        · obtain ⟨_, others, rfl⟩ := Option.map_eq_some_iff.mp done
          exact ⟨keyed, here, members _ _ others⟩
        · cases done
          exact ⟨keyed, here, trivial⟩
        · cases done

/-- A value that is read is UTF-8. -/
theorem utf8_of_read {text : Str} {value : Json} (done : read text = some value) : Utf8 value := by
  obtain ⟨⟨first, rest⟩, here, whole⟩ := Option.bind_eq_some_iff.mp done
  dsimp only at whole
  split_ifs at whole
  cases whole
  exact (utf8_of_readers _).1 _ _ here

end Json

end HashArchive
