import HashArchive.Foundations.PosixRegex
import Mathlib.Data.List.DropRight

/-!
# Scanning and joining

What a conversion of `sscanf` takes from a text of which the parts are known
(`scansetMatch_of_stop`, `scansetMatch_of_long`), where an input ends that is bounded by a
length and by a character (`boundedRun_boundedInput`), how bounded appending truncates
(`strlcat_take`), and that a text made of parts that do not contain the character
between them determines its parts (`flatMap_terminated_inj`).
-/

set_option autoImplicit false

namespace HashArchive

variable {set : Char → Bool} {run rest : Str}

/-! ## Characters -/

theorem isUpper_iff {c : Char} : c.isUpper = true ↔ 65 ≤ c.val.toNat ∧ c.val.toNat ≤ 90 :=
  decide_eq_true_iff

theorem isLower_iff {c : Char} : c.isLower = true ↔ 97 ≤ c.val.toNat ∧ c.val.toNat ≤ 122 :=
  (Bool.and_eq_true_iff).trans (and_congr decide_eq_true_iff decide_eq_true_iff)

theorem isDigit_iff {c : Char} : c.isDigit = true ↔ 48 ≤ c.val.toNat ∧ c.val.toNat ≤ 57 :=
  (Bool.and_eq_true_iff).trans (and_congr decide_eq_true_iff decide_eq_true_iff)

theorem isAlphanum_eq (c : Char) : c.isAlphanum = (c.isUpper || c.isLower || c.isDigit) := rfl

/-- An upper case letter is 32 before its lower case. -/
theorem toNat_toLower {c : Char} (upper : 65 ≤ c.val.toNat ∧ c.val.toNat ≤ 90) :
    c.toLower.val.toNat = c.val.toNat + 32 := by
  have letter : c.val ≥ 'A'.val ∧ c.val ≤ 'Z'.val := upper
  unfold Char.toLower
  rw [dif_pos letter]
  show (c.val + ('a'.val - 'A'.val)).toNat = c.val.toNat + 32
  rw [UInt32.toNat_add]
  exact Nat.mod_eq_of_lt (by show c.val.toNat + 32 < _; omega)

/-- Nothing else has another lower case. -/
theorem toLower_of_not_upper {c : Char} (other : ¬ (65 ≤ c.val.toNat ∧ c.val.toNat ≤ 90)) :
    c.toLower = c :=
  dif_neg other

theorem eq_of_toLower_eq {c symbol : Char} (folded : c.toLower = symbol)
    (noLetter : ¬ ('a' ≤ symbol ∧ symbol ≤ 'z')) : c = symbol := by
  by_cases upper : 65 ≤ c.val.toNat ∧ c.val.toNat ≤ 90
  · have lower := toNat_toLower upper
    rw [folded] at lower
    refine absurd ⟨?_, ?_⟩ noLetter
    · show 97 ≤ symbol.val.toNat
      omega
    · show symbol.val.toNat ≤ 122
      omega
  · rwa [toLower_of_not_upper upper] at folded

/-! ## Conversions -/

/-- A run of characters of a set, up to one that is not in it. -/
theorem takeWhile_of_stop (inside : ∀ c ∈ run, set c = true)
    (stops : ∀ c ∈ rest.head?, set c = false) : (run ++ rest).takeWhile set = run := by
  rw [List.takeWhile_append_of_pos inside]
  cases rest with
  | nil => simp
  | cons next rest =>
      rw [List.takeWhile_cons_of_neg (by rw [stops next rfl]; decide), List.append_nil]

/-- What follows such a run. -/
theorem dropWhile_of_stop (inside : ∀ c ∈ run, set c = true)
    (stops : ∀ c ∈ rest.head?, set c = false) : (run ++ rest).dropWhile set = rest := by
  have split := List.takeWhile_append_dropWhile (p := set) (l := run ++ rest)
  rw [takeWhile_of_stop inside stops] at split
  exact List.append_cancel_left split

/-- A conversion takes a run that is not too long. -/
theorem scansetMatch_of_stop {width : Option ℕ} (inside : ∀ c ∈ run, set c = true)
    (stops : ∀ c ∈ rest.head?, set c = false) (short : ∀ bound ∈ width, run.length ≤ bound) :
    scansetMatch width set (run ++ rest) = run := by
  cases width with
  | none => exact takeWhile_of_stop inside stops
  | some bound =>
      rw [scansetMatch, List.take_append, List.take_of_length_le (short bound rfl)]
      refine takeWhile_of_stop inside fun c first => stops c ?_
      cases remaining : bound - run.length with
      | zero =>
          rw [remaining, List.take_zero] at first
          cases first
      | succ count =>
          rw [remaining] at first
          cases rest with
          | nil => exact first
          | cons next rest => exact first

/-- A conversion takes as much as fits of a run that is too long. -/
theorem scansetMatch_of_long {bound : ℕ} (inside : ∀ c ∈ run, set c = true)
    (long : bound ≤ run.length) : scansetMatch (some bound) set (run ++ rest) = run.take bound := by
  rw [scansetMatch, List.take_append_of_le_length long]
  exact List.takeWhile_eq_self_iff.mpr fun c member => inside c (List.mem_of_mem_take member)

/-- A conversion that takes something, and the rest of the format. -/
theorem sscanf_scanset {width : Option ℕ} {taken : Str} {format : List Directive}
    (takes : scansetMatch width set (run ++ rest) = taken) (some : taken ≠ []) :
    sscanf (.scanset width set :: format) (run ++ rest) =
      taken :: sscanf format ((run ++ rest).drop taken.length) := by
  rw [sscanf, takes]
  cases taken with
  | nil => exact absurd rfl some
  | cons first taken => rfl

/-- A run that is not too long, and the rest of the format. -/
theorem sscanf_of_stop {width : Option ℕ} {format : List Directive}
    (inside : ∀ c ∈ run, set c = true) (nonempty : run ≠ [])
    (stops : ∀ c ∈ rest.head?, set c = false) (short : ∀ bound ∈ width, run.length ≤ bound) :
    sscanf (.scanset width set :: format) (run ++ rest) = run :: sscanf format rest := by
  rw [sscanf_scanset (scansetMatch_of_stop inside stops short) nonempty, List.drop_left]

/-- Of a run that is too long something is left for the rest of the format. -/
theorem sscanf_of_long {bound : ℕ} {format : List Directive} (inside : ∀ c ∈ run, set c = true)
    (positive : 0 < bound) (long : bound < run.length) :
    ∃ next ∈ run, ∃ more, sscanf (.scanset (some bound) set :: format) (run ++ rest) =
      run.take bound :: sscanf format (next :: more) := by
  have length : (run.take bound).length = bound := List.length_take_of_le long.le
  have nonempty : run.take bound ≠ [] := List.ne_nil_of_length_pos (by omega)
  cases left : run.drop bound with
  | nil => exact absurd (List.drop_eq_nil_iff.mp left) (Nat.not_le.mpr long)
  | cons next more =>
      refine ⟨next, List.mem_of_mem_drop (left ▸ List.mem_cons_self), more ++ rest, ?_⟩
      rw [sscanf_scanset (scansetMatch_of_long inside long.le) nonempty, length,
        List.drop_append_of_le_length long.le, left, List.cons_append]

/-- What the first conversion of a format assigns. -/
theorem getD_sscanf_scanset (width : Option ℕ) (format : List Directive) (text : Str) :
    (sscanf (.scanset width set :: format) text).getD 0 [] = scansetMatch width set text := by
  rw [sscanf]
  cases scansetMatch width set text with
  | nil => rfl
  | cons first taken => rfl

theorem outside_of_head?_dropWhile {text : Str} {c : Char}
    (first : c ∈ (text.dropWhile set).head?) : set c = false := by
  have outside := List.head?_dropWhile_not set text
  rw [show (text.dropWhile set).head? = some c from first] at outside
  exact outside

/-- A text begins with a run of characters of a set. -/
theorem exists_run (set : Char → Bool) (text : Str) : ∃ run left, text = run ++ left ∧
    (∀ c ∈ run, set c = true) ∧ ∀ c ∈ left.head?, set c = false :=
  ⟨text.takeWhile set, text.dropWhile set, List.takeWhile_append_dropWhile.symm,
    fun _ => List.mem_takeWhile_imp, fun _ => outside_of_head?_dropWhile⟩

/-- A conversion that takes nothing ends the scan; another one is followed by the rest. -/
theorem sscanf_scanset_cases (width : Option ℕ) (set : Char → Bool) (format : List Directive)
    (text : Str) : sscanf (.scanset width set :: format) text = [] ∨
      scansetMatch width set text ≠ [] ∧ ∃ left, sscanf (.scanset width set :: format) text =
        scansetMatch width set text :: sscanf format left := by
  rw [sscanf]
  cases scansetMatch width set text with
  | nil => exact .inl rfl
  | cons first taken => exact .inr ⟨List.cons_ne_nil _ _, _, rfl⟩

/-- A character that is not there ends the scan. -/
theorem sscanf_literal {symbol : Char} {format : List Directive} {text : Str}
    (goesOn : sscanf (.literal symbol :: format) text ≠ []) :
    ∃ rest, text = symbol :: rest ∧ sscanf format rest ≠ [] := by
  cases text with
  | nil => exact absurd rfl goesOn
  | cons next rest =>
      rw [sscanf] at goesOn
      split_ifs at goesOn with same
      · exact ⟨rest, same ▸ rfl, goesOn⟩
      · exact absurd rfl goesOn

theorem of_mem_scansetMatch {bound : ℕ} {set : Char → Bool} {text : Str} {c : Char}
    (member : c ∈ scansetMatch (some bound) set text) : set c = true :=
  List.mem_takeWhile_imp member

theorem length_scansetMatch_le (bound : ℕ) (set : Char → Bool) (text : Str) :
    (scansetMatch (some bound) set text).length ≤ bound :=
  (List.takeWhile_sublist _).length_le.trans (List.length_take_le _ _)

/-- A set that contains another one goes on where the other stopped. -/
theorem takeWhile_append_takeWhile {smaller larger : Char → Bool}
    (contains : ∀ c, smaller c = true → larger c = true) (text : Str) :
    text.takeWhile smaller ++ (text.dropWhile smaller).takeWhile larger = text.takeWhile larger := by
  induction text with
  | nil => rfl
  | cons next text ih =>
      by_cases inside : smaller next = true
      · rw [List.takeWhile_cons_of_pos inside, List.dropWhile_cons_of_pos inside,
          List.takeWhile_cons_of_pos (contains next inside), List.cons_append, ih]
      · rw [List.takeWhile_cons_of_neg inside, List.dropWhile_cons_of_neg inside, List.nil_append]

theorem scansetMatch_of_fits {bound : ℕ} {text : Str} (fits : text.length ≤ bound) :
    scansetMatch (some bound) set text = text.takeWhile set := by
  rw [scansetMatch, List.take_of_length_le fits]

/-- Two conversions, the second of a set that contains the first's, take together what the
second takes. -/
theorem sscanf_nested {smaller larger : Char → Bool}
    (contains : ∀ c, smaller c = true → larger c = true) {text : Str}
    (begins : ∀ c ∈ text.head?, smaller c = true) {bound : ℕ} (fits : text.length ≤ bound) :
    (sscanf [.scanset (some bound) smaller, .scanset (some bound) larger] text).getD 0 [] ++
      (sscanf [.scanset (some bound) smaller, .scanset (some bound) larger] text).getD 1 [] =
    text.takeWhile larger := by
  cases text with
  | nil => simp [sscanf, scansetMatch]
  | cons first text =>
      obtain ⟨run, found⟩ : ∃ run, (first :: text).takeWhile smaller = first :: run :=
        ⟨_, List.takeWhile_cons_of_pos (begins first rfl)⟩
      have rest : (first :: text).drop (first :: run).length =
          (first :: text).dropWhile smaller := by
        conv_lhs => rw [← List.takeWhile_append_dropWhile (p := smaller) (l := first :: text), found]
        exact List.drop_left
      have taken : sscanf [.scanset (some bound) smaller, .scanset (some bound) larger]
          (first :: text) = (first :: run) ::
            sscanf [.scanset (some bound) larger] ((first :: text).dropWhile smaller) := by
        simp only [sscanf, scansetMatch_of_fits fits, found, rest]
      rw [taken, ← takeWhile_append_takeWhile contains, found]
      have last : scansetMatch (some bound) larger ((first :: text).dropWhile smaller) =
          ((first :: text).dropWhile smaller).takeWhile larger :=
        scansetMatch_of_fits ((List.dropWhile_sublist _).length_le.trans fits)
      cases more : ((first :: text).dropWhile smaller).takeWhile larger with
      | nil => simp [sscanf, last, more]
      | cons next more' => simp [sscanf, last, more]

/-! ## Input with an end -/

section BoundedInput

variable {str : List Char} {len : ℕ}

/-- The characters of a set with which the first `len` cells begin. -/
def boundedRun (set : Char → Bool) (str : List Char) (len : ℕ) : List Char :=
  (str.take len).takeWhile set

/-- The cells up to the end of the input: the run, and the cell that ends it when it comes
before `len`. -/
def boundedInput (set : Char → Bool) (str : List Char) (len : ℕ) : List Char :=
  (str.take len).take ((boundedRun set str len).length + 1)

/-- The input has `len` cells, or a character before that ends it. -/
def EndsWithin (set : Char → Bool) (str : List Char) (len : ℕ) : Prop :=
  len ≤ str.length ∨ ∃ c ∈ str, set c = false

theorem boundedRun_zero (ended : len = 0) : boundedRun set str len = [] := by
  rw [boundedRun, ended, List.take_zero, List.takeWhile_nil]

theorem boundedRun_stop {c : Char} (ended : set c = false) : boundedRun set (c :: str) len = [] := by
  cases len <;> simp [boundedRun, ended]

theorem boundedRun_cons {c : Char} (more : 0 < len) (inside : set c = true) :
    boundedRun set (c :: str) len = c :: boundedRun set str (len - 1) := by
  obtain ⟨len, rfl⟩ : ∃ n, len = n + 1 := ⟨len - 1, by omega⟩
  simp [boundedRun, inside]

theorem EndsWithin.tail {c : Char} (ends : EndsWithin set (c :: str) len) (inside : set c = true) :
    EndsWithin set str (len - 1) := by
  rcases ends with long | ⟨stop, member, ended⟩
  · rw [List.length_cons] at long
    exact .inl (by omega)
  · rcases List.mem_cons.mp member with rfl | later
    · rw [inside] at ended
      cases ended
    · exact .inr ⟨stop, later, ended⟩

theorem EndsWithin.nonempty (ends : EndsWithin set [] len) : len = 0 := by
  rcases ends with long | ⟨_, member, _⟩
  · exact Nat.le_zero.mp long
  · cases member

/-- What follows a text that is not too long is not part of its run. -/
theorem boundedRun_append {text : Str} (fits : text.length ≤ len)
    (stops : ∀ c ∈ rest.head?, set c = false) :
    boundedRun set (text ++ rest) len = boundedRun set text text.length := by
  obtain ⟨run, left, rfl, inside, outside⟩ := exists_run set text
  have ends : ∀ c ∈ (left ++ rest.take (len - (run ++ left).length)).head?, set c = false := by
    intro c first
    cases left with
    | cons next left => exact outside c first
    | nil =>
        cases rest with
        | nil => simp at first
        | cons next rest =>
            cases room : len - (run ++ []).length with
            | zero =>
                rw [room] at first
                cases first
            | succ room' =>
                rw [room] at first
                exact stops c first
  rw [boundedRun, boundedRun, List.take_length, List.take_append, List.take_of_length_le fits,
    takeWhile_of_stop inside outside, List.append_assoc, takeWhile_of_stop inside ends]

/-- The run, and the cell after it. -/
theorem exists_boundedInput (set : Char → Bool) (str : List Char) (len : ℕ) :
    ∃ left, str.take len = boundedRun set str len ++ left ∧
      boundedInput set str len = boundedRun set str len ++ left.take 1 ∧
      ∀ c ∈ left.head?, set c = false := by
  obtain ⟨run, left, split, inside, outside⟩ := exists_run set (str.take len)
  have same : boundedRun set str len = run := by
    rw [boundedRun, split, takeWhile_of_stop inside outside]
  refine ⟨left, same ▸ split, ?_, outside⟩
  rw [boundedInput, same, split, List.take_append, List.take_of_length_le (Nat.le_succ _),
    Nat.add_sub_cancel_left]

/-- **The cells up to the end** have the same run. -/
theorem boundedRun_boundedInput (set : Char → Bool) (str : List Char) (len : ℕ) :
    boundedRun set (boundedInput set str len) len = boundedRun set str len := by
  have fits : (boundedInput set str len).length ≤ len := by
    rw [boundedInput, List.length_take, List.length_take]
    omega
  obtain ⟨left, split, input, ends⟩ := exists_boundedInput set str len
  have inside : ∀ c ∈ boundedRun set str len, set c = true := fun c => List.mem_takeWhile_imp
  conv_lhs => rw [boundedRun, List.take_of_length_le fits, input]
  apply takeWhile_of_stop inside
  intro c first
  cases left with
  | nil => cases first
  | cons next left => exact ends c first

/-- **The cells up to the end** have an end. -/
theorem EndsWithin.boundedInput (readable : EndsWithin set str len) :
    EndsWithin set (boundedInput set str len) len := by
  obtain ⟨left, split, input, ends⟩ := exists_boundedInput set str len
  rw [input]
  cases left with
  | cons next left => exact .inr ⟨next, by simp, ends next rfl⟩
  | nil =>
      refine .inl ?_
      rw [List.take_nil, ← split, List.length_take]
      refine le_min (Nat.le_refl _) (readable.elim id fun ⟨stop, member, ended⟩ => ?_)
      by_contra short
      rw [List.append_nil, List.take_of_length_le (Nat.le_of_not_le short)] at split
      rw [split] at member
      have inside : set stop = true := List.mem_takeWhile_imp member
      rw [ended] at inside
      cases inside

end BoundedInput

/-! ## Appending -/

/-- Appending to a truncated text truncates what is appended to the whole text. -/
theorem strlcat_take (text source : Str) (max : ℕ) :
    strlcat (text.take (max - 1)) source max = (text ++ source).take (max - 1) := by
  rw [strlcat, List.take_append, List.length_take]
  congr 2
  omega

/-! ## Parts and what is between them -/

/-- What follows the last character that is not dropped is dropped. -/
theorem rdropWhile_append (drops : ∀ c ∈ rest, set c = true)
    (stops : ∀ c ∈ run.getLast?, set c = false) : (run ++ rest).rdropWhile set = run := by
  rw [List.rdropWhile, List.reverse_append,
    List.dropWhile_append_of_pos fun c member => drops c (List.mem_reverse.mp member)]
  cases last : run.reverse with
  | nil =>
      rw [List.reverse_eq_nil_iff.mp last]
      rfl
  | cons final before =>
      have ends : run.getLast? = some final := by rw [← List.head?_reverse, last]; rfl
      rw [List.dropWhile_cons_of_neg (by rw [stops final ends]; decide), ← last,
        List.reverse_reverse]

/-- A text of parts, each followed by a character that is in none of them, determines the
parts. -/
theorem flatMap_terminated_inj {separator : Char} {first second : List Str}
    (notFirst : ∀ part ∈ first, separator ∉ part) (notSecond : ∀ part ∈ second, separator ∉ part)
    (same : first.flatMap (· ++ [separator]) = second.flatMap (· ++ [separator])) :
    first = second := by
  induction first generalizing second with
  | nil =>
      cases second with
      | nil => rfl
      | cons part second => simp at same
  | cons part first ih =>
      cases second with
      | nil => simp at same
      | cons other second =>
          obtain ⟨here, laterFirst⟩ := List.forall_mem_cons.mp notFirst
          obtain ⟨there, laterSecond⟩ := List.forall_mem_cons.mp notSecond
          simp only [List.flatMap_cons, List.append_assoc, List.singleton_append] at same
          obtain ⟨rfl, rest⟩ := Regex.split_unique same here there
          rw [ih laterFirst laterSecond rest]

end HashArchive
