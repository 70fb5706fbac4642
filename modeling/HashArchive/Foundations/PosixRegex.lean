import HashArchive.Foundations.CProgram
import Mathlib.Data.List.MinMax

/-!
# POSIX regular expressions

The extended regular expressions of the program are built from characters, bracket
expressions, bounded repetitions of a bracket expression, groups, optional parts and `$`.
`Regex.parses` lists the ways in which an expression matches a prefix of a string, in
the order in which POSIX prefers them among matches of one length: each part as long as
possible, from left to right. `regexec` takes the first of the longest, for an expression
that is anchored with `^`; `regsearch` does so at the leftmost place where there is one.

`regexec_eq_some` gives what a caller relies on: the answer is one of the ways to
match, and no way to match is longer. The `mem_parses_*` lemmas say, expression
by expression, what the ways to match are, so that a match of a given expression
is taken apart by `simp`.
-/

set_option autoImplicit false

namespace HashArchive

/-- An extended regular expression; repetition is of single characters. -/
inductive Regex where
  | empty
  | char (set : Char → Bool)
  | repeated (set : Char → Bool) (least : ℕ) (most : Option ℕ)
  | seq (first second : Regex)
  | optional (body : Regex)
  | group (index : ℕ) (body : Regex)
  | atEnd

/-- One way to match: the text matched, what follows it, and the groups. -/
structure RegMatch where
  text : Str
  rest : Str
  groups : List (ℕ × Str)
deriving DecidableEq, Repr

/-- The text of a group, `m[index]`; a group that took no part has none. -/
def RegMatch.group (found : RegMatch) (index : ℕ) : Str := (found.groups.lookup index).getD []

namespace Regex

/-- A literal text, read through a case folding. -/
def literal (fold : Char → Char) : Str → Regex
  | [] => .empty
  | next :: text => .seq (.char fun read => fold read == next) (literal fold text)

/-- The lengths a repetition can take, longest first. -/
def spans (set : Char → Bool) (least : ℕ) (most : Option ℕ) (input : Str) : List ℕ :=
  let longest := (scansetMatch most set input).length
  (List.range (longest + 1)).reverse.filter (least ≤ ·)

/-- The ways in which an expression matches a prefix of the input. -/
def parses : Regex → Str → List RegMatch
  | .empty, input => [⟨[], input, []⟩]
  | .char _, [] => []
  | .char set, next :: input => if set next then [⟨[next], input, []⟩] else []
  | .repeated set least most, input =>
    (spans set least most input).map fun length => ⟨input.take length, input.drop length, []⟩
  | .seq first second, input =>
    (parses first input).flatMap fun front =>
      (parses second front.rest).map fun back =>
        ⟨front.text ++ back.text, back.rest, front.groups ++ back.groups⟩
  | .optional body, input => parses body input ++ [⟨[], input, []⟩]
  | .group index body, input =>
    (parses body input).map fun inner => { inner with groups := (index, inner.text) :: inner.groups }
  | .atEnd, [] => [⟨[], [], []⟩]
  | .atEnd, _ :: _ => []

end Regex

/-- `regexec` of an expression that starts with `^`. -/
def regexec (regex : Regex) (input : Str) : Option RegMatch :=
  (regex.parses input).argmax fun found => found.text.length

/-- **The answer is a way to match, and no way to match is longer.** -/
theorem regexec_eq_some {regex : Regex} {input : Str} {found : RegMatch}
    (answer : regexec regex input = some found) :
    found ∈ regex.parses input ∧
      ∀ other ∈ regex.parses input, other.text.length ≤ found.text.length :=
  ⟨List.argmax_mem answer, fun _ member =>
    @List.le_of_mem_argmax RegMatch ℕ _ (fun found => found.text.length) _ _ _ member answer⟩

/-- An expression with a way to match is matched. -/
theorem exists_regexec_of_mem {regex : Regex} {input : Str} {found : RegMatch}
    (member : found ∈ regex.parses input) : ∃ answer, regexec regex input = some answer := by
  cases answer : regexec regex input with
  | some found => exact ⟨found, rfl⟩
  | none =>
      rw [regexec, List.argmax_eq_none] at answer
      simp [answer] at member

theorem regexec_eq_none_iff {regex : Regex} {input : Str} :
    regexec regex input = none ↔ regex.parses input = [] :=
  List.argmax_eq_none

/-! ## Searching -/

/-- `regexec` of an expression without `^`: the offset `rm_so` of the leftmost place where it
matches, and the match there. -/
def regsearch (regex : Regex) : Str → Option (ℕ × RegMatch)
  | [] => (regexec regex []).map fun found => (0, found)
  | next :: input =>
    match regexec regex (next :: input) with
    | some found => some (0, found)
    | none => (regsearch regex input).map fun (offset, found) => (offset + 1, found)

/-- **The leftmost place**: there is a match there, and none before it. -/
theorem regsearch_eq_some {regex : Regex} {input : Str} {offset : ℕ} {found : RegMatch}
    (answer : regsearch regex input = some (offset, found)) :
    offset ≤ input.length ∧ regexec regex (input.drop offset) = some found ∧
      ∀ earlier < offset, regexec regex (input.drop earlier) = none := by
  induction input generalizing offset with
  | nil =>
      obtain ⟨_, here, same⟩ := Option.map_eq_some_iff.mp answer
      cases same
      exact ⟨Nat.le_refl 0, here, fun _ before => absurd before (Nat.not_lt_zero _)⟩
  | cons next input ih =>
      rw [regsearch] at answer
      split at answer
      · rename_i here
        cases answer
        exact ⟨Nat.zero_le _, here, fun _ before => absurd before (Nat.not_lt_zero _)⟩
      · rename_i notHere
        obtain ⟨⟨offset, _⟩, later, same⟩ := Option.map_eq_some_iff.mp answer
        cases same
        obtain ⟨within, here, before⟩ := ih later
        refine ⟨Nat.succ_le_succ within, here, fun earlier less => ?_⟩
        cases earlier with
        | zero => exact notHere
        | succ earlier => exact before earlier (Nat.lt_of_succ_lt_succ less)

/-- **No place** has a match. -/
theorem regsearch_eq_none {regex : Regex} {input : Str} (answer : regsearch regex input = none)
    (offset : ℕ) : regexec regex (input.drop offset) = none := by
  induction input generalizing offset with
  | nil =>
      rw [List.drop_nil]
      exact Option.map_eq_none_iff.mp answer
  | cons next input ih =>
      rw [regsearch] at answer
      split at answer
      · cases answer
      · rename_i notHere
        cases offset with
        | zero => exact notHere
        | succ offset => exact ih (Option.map_eq_none_iff.mp answer) offset

namespace Regex

variable {input : Str} {found : RegMatch} {set : Char → Bool} {least : ℕ} {most : Option ℕ}

/-! ## The ways to match, expression by expression -/

theorem length_scansetMatch_le : (scansetMatch most set input).length ≤ input.length := by
  cases most with
  | none => exact (List.takeWhile_prefix set).length_le
  | some width =>
      refine (List.takeWhile_prefix set).length_le.trans ?_
      simp [List.length_take]

/-- A prefix is within the longest run of a set exactly when all its characters
are in the set. -/
theorem le_length_takeWhile_iff {length : ℕ} {text : Str} (within : length ≤ text.length) :
    length ≤ (text.takeWhile set).length ↔ ∀ c ∈ text.take length, set c = true := by
  induction text generalizing length with
  | nil => simp_all
  | cons next text ih =>
      cases length with
      | zero => simp
      | succ length =>
          by_cases holds : set next = true
          · have tail : length ≤ (text.takeWhile set).length ↔ ∀ c ∈ text.take length, set c = true :=
              ih (by simpa using within)
            simpa [holds] using tail
          · simp [holds]

/-- A prefix is a possible span exactly when all its characters are in the set
and its length is within the bounds. -/
theorem mem_spans_iff {length : ℕ} (within : length ≤ input.length) :
    length ∈ spans set least most input ↔
      (∀ c ∈ input.take length, set c = true) ∧ least ≤ length ∧ ∀ bound ∈ most, length ≤ bound := by
  simp only [spans, List.mem_filter, List.mem_reverse, List.mem_range, Nat.lt_succ_iff,
    decide_eq_true_eq]
  cases most with
  | none =>
      simp only [scansetMatch, le_length_takeWhile_iff within, Option.not_mem_none, false_implies,
        implies_true, and_true]
  | some width =>
      simp only [scansetMatch, Option.mem_def, Option.some.injEq, forall_eq']
      by_cases short : length ≤ width
      · have clipped : length ≤ ((input.take width).takeWhile set).length ↔
            ∀ c ∈ (input.take width).take length, set c = true :=
          le_length_takeWhile_iff (by simp [short, within])
        rw [List.take_take, min_eq_left short] at clipped
        rw [clipped]
        tauto
      · have long : ¬ length ≤ ((input.take width).takeWhile set).length := by
          have bound := (List.takeWhile_prefix set : _ <+: input.take width).length_le
          simp only [List.length_take] at bound
          omega
        tauto

@[simp] theorem mem_parses_empty : found ∈ parses .empty input ↔ found = ⟨[], input, []⟩ := by
  simp [parses]

@[simp] theorem mem_parses_char :
    found ∈ parses (.char set) input ↔
      ∃ next rest, input = next :: rest ∧ set next = true ∧ found = ⟨[next], rest, []⟩ := by
  cases input with
  | nil => simp [parses]
  | cons next input =>
      by_cases holds : set next = true <;> simp [parses, holds]

@[simp] theorem mem_parses_repeated :
    found ∈ parses (.repeated set least most) input ↔
      ∃ text rest, input = text ++ rest ∧ (∀ c ∈ text, set c = true) ∧ least ≤ text.length ∧
        (∀ bound ∈ most, text.length ≤ bound) ∧ found = ⟨text, rest, []⟩ := by
  simp only [parses, List.mem_map]
  constructor
  · rintro ⟨length, member, rfl⟩
    have within : length ≤ input.length := by
      have longest : (scansetMatch most set input).length ≤ input.length := length_scansetMatch_le
      simp only [spans, List.mem_filter, List.mem_reverse, List.mem_range] at member
      omega
    obtain ⟨all, enough, few⟩ := (mem_spans_iff within).mp member
    have size : (input.take length).length = length := by simp [within]
    exact ⟨input.take length, input.drop length, (List.take_append_drop ..).symm, all,
      by omega, fun bound bounded => by have := few bound bounded; omega, rfl⟩
  · rintro ⟨text, rest, rfl, all, enough, few, rfl⟩
    refine ⟨text.length, (mem_spans_iff (by simp)).mpr ?_, by simp⟩
    simpa using ⟨all, enough, few⟩

@[simp] theorem mem_parses_seq {first second : Regex} :
    found ∈ parses (.seq first second) input ↔
      ∃ front ∈ parses first input, ∃ back ∈ parses second front.rest,
        found = ⟨front.text ++ back.text, back.rest, front.groups ++ back.groups⟩ := by
  simp only [parses, List.mem_flatMap, List.mem_map, eq_comm]

@[simp] theorem mem_parses_optional {body : Regex} :
    found ∈ parses (.optional body) input ↔
      found ∈ parses body input ∨ found = ⟨[], input, []⟩ := by
  simp [parses]

@[simp] theorem mem_parses_group {index : ℕ} {body : Regex} :
    found ∈ parses (.group index body) input ↔
      ∃ inner ∈ parses body input,
        found = { inner with groups := (index, inner.text) :: inner.groups } := by
  simp only [parses, List.mem_map, eq_comm]

@[simp] theorem mem_parses_atEnd :
    found ∈ parses .atEnd input ↔ input = [] ∧ found = ⟨[], [], []⟩ := by
  cases input <;> simp [parses]

@[simp] theorem mem_parses_literal {fold : Char → Char} {text : Str} :
    found ∈ parses (literal fold text) input ↔
      ∃ read rest, input = read ++ rest ∧ read.map fold = text ∧ found = ⟨read, rest, []⟩ := by
  induction text generalizing input found with
  | nil => simp [literal]
  | cons next text ih =>
      simp only [literal, mem_parses_seq, mem_parses_char, ih]
      constructor
      · rintro ⟨_, ⟨head, _, rfl, same, rfl⟩, _, ⟨read, after, rfl, folded, rfl⟩, rfl⟩
        exact ⟨head :: read, after, rfl, by simpa [folded] using same, rfl⟩
      · rintro ⟨read, rest, rfl, same, rfl⟩
        obtain ⟨head, read, rfl, first, tail⟩ := List.map_eq_cons_iff.mp same
        exact ⟨_, ⟨head, read ++ rest, rfl, by simpa using first, rfl⟩, _,
          ⟨read, rest, rfl, tail, rfl⟩, rfl⟩

/-- A way to match splits the input into the text matched and what follows. -/
theorem append_of_mem_parses {regex : Regex} (member : found ∈ regex.parses input) :
    input = found.text ++ found.rest := by
  induction regex generalizing input found with
  | empty => simp_all
  | char set =>
      obtain ⟨next, rest, rfl, -, rfl⟩ := mem_parses_char.mp member
      rfl
  | repeated set least most =>
      obtain ⟨text, rest, rfl, -, -, -, rfl⟩ := mem_parses_repeated.mp member
      rfl
  | seq first second ihFirst ihSecond =>
      obtain ⟨front, inFirst, back, inSecond, rfl⟩ := mem_parses_seq.mp member
      rw [ihFirst inFirst, ihSecond inSecond, List.append_assoc]
  | optional body ih =>
      rcases mem_parses_optional.mp member with inner | rfl
      · exact ih inner
      · rfl
  | group index body ih =>
      obtain ⟨inner, inBody, same⟩ := mem_parses_group.mp member
      have split := ih inBody
      rw [same]
      exact split
  | atEnd =>
      obtain ⟨rfl, rfl⟩ := mem_parses_atEnd.mp member
      rfl

/-! ## The characters of a match -/

/-- Every character that the expression takes has a property. -/
def TakesOnly (plain : Char → Prop) : Regex → Prop
  | .empty | .atEnd => True
  | .char set | .repeated set _ _ => ∀ c, set c = true → plain c
  | .seq first second => TakesOnly plain first ∧ TakesOnly plain second
  | .optional body | .group _ body => TakesOnly plain body

theorem takesOnly_literal {plain : Char → Prop} {fold : Char → Char} {text : Str}
    (folds : ∀ c, fold c ∈ text → plain c) : TakesOnly plain (literal fold text) := by
  induction text with
  | nil => trivial
  | cons next text ih =>
      refine ⟨fun c same => folds c ?_, ih fun c member => folds c (List.mem_cons_of_mem _ member)⟩
      rw [eq_of_beq same]
      exact List.mem_cons_self

/-- **The text that is matched consists of characters that the expression takes.** -/
theorem TakesOnly.of_mem_parses {plain : Char → Prop} {regex : Regex}
    (takesOnly : TakesOnly plain regex) (member : found ∈ regex.parses input) :
    ∀ c ∈ found.text, plain c := by
  induction regex generalizing input found with
  | empty => simp_all
  | char set =>
      obtain ⟨next, rest, rfl, holds, rfl⟩ := mem_parses_char.mp member
      simpa using takesOnly next holds
  | repeated set least most =>
      obtain ⟨text, rest, rfl, inside, -, -, rfl⟩ := mem_parses_repeated.mp member
      exact fun c inText => takesOnly c (inside c inText)
  | seq first second ihFirst ihSecond =>
      obtain ⟨front, inFirst, back, inSecond, rfl⟩ := mem_parses_seq.mp member
      intro c inText
      rcases List.mem_append.mp inText with inFront | inBack
      · exact ihFirst takesOnly.1 inFirst c inFront
      · exact ihSecond takesOnly.2 inSecond c inBack
  | optional body ih =>
      rcases mem_parses_optional.mp member with inner | rfl
      · exact ih takesOnly inner
      · exact nofun
  | group index body ih =>
      obtain ⟨inner, inBody, same⟩ := mem_parses_group.mp member
      have inner := ih takesOnly inBody
      rw [same]
      exact inner
  | atEnd =>
      obtain ⟨rfl, rfl⟩ := mem_parses_atEnd.mp member
      exact nofun

/-- The expression ends with `$`. -/
def EndsAtEnd : Regex → Prop
  | .atEnd => True
  | .seq _ second => EndsAtEnd second
  | _ => False

theorem EndsAtEnd.rest_eq_nil {regex : Regex} (ends : EndsAtEnd regex)
    (member : found ∈ regex.parses input) : found.rest = [] := by
  induction regex generalizing input found with
  | seq first second _ ihSecond =>
      obtain ⟨front, -, back, inSecond, rfl⟩ := mem_parses_seq.mp member
      show back.rest = []
      exact ihSecond ends inSecond
  | atEnd =>
      obtain ⟨rfl, rfl⟩ := mem_parses_atEnd.mp member
      rfl
  | _ => cases ends

/-- **An expression that ends with `$`** takes the whole input. -/
theorem TakesOnly.of_endsAtEnd {plain : Char → Prop} {regex : Regex}
    (takesOnly : TakesOnly plain regex) (ends : EndsAtEnd regex)
    (member : found ∈ regex.parses input) : ∀ c ∈ input, plain c := by
  have whole := append_of_mem_parses member
  rw [ends.rest_eq_nil member, List.append_nil] at whole
  rw [whole]
  exact takesOnly.of_mem_parses member

/-- A text splits in one way at the first occurrence of a separator. -/
theorem split_unique {first second firstRest secondRest : Str} {separator : Char}
    (same : first ++ separator :: firstRest = second ++ separator :: secondRest)
    (notFirst : separator ∉ first) (notSecond : separator ∉ second) :
    first = second ∧ firstRest = secondRest := by
  induction first generalizing second with
  | nil =>
      cases second with
      | nil => simpa using same
      | cons next second =>
          simp only [List.nil_append, List.cons_append, List.cons.injEq] at same
          exact absurd (same.1 ▸ List.mem_cons_self) notSecond
  | cons head first ih =>
      cases second with
      | nil =>
          simp only [List.nil_append, List.cons_append, List.cons.injEq] at same
          exact absurd (same.1 ▸ List.mem_cons_self) notFirst
      | cons next second =>
          simp only [List.cons_append, List.cons.injEq] at same
          obtain ⟨rfl, tails⟩ := same
          obtain ⟨rfl, rests⟩ := ih tails (fun member => notFirst (List.mem_cons_of_mem _ member))
            (fun member => notSecond (List.mem_cons_of_mem _ member))
          exact ⟨rfl, rests⟩

/-! ## Showing that a text is matched -/

/-- The expression can take a text that is followed by the rest. -/
def Takes (regex : Regex) (text rest : Str) : Prop :=
  ∃ found ∈ regex.parses (text ++ rest), found.text = text ∧ found.rest = rest

variable {text rest : Str} {regex first second : Regex}

theorem Takes.char {next : Char} (holds : set next = true) : Takes (.char set) [next] rest :=
  ⟨_, mem_parses_char.mpr ⟨next, rest, rfl, holds, rfl⟩, rfl, rfl⟩

theorem Takes.literal {fold : Char → Char} {word : Str} (folded : text.map fold = word) :
    Takes (literal fold word) text rest :=
  ⟨_, mem_parses_literal.mpr ⟨text, rest, rfl, folded, rfl⟩, rfl, rfl⟩

theorem Takes.repeated (inside : ∀ c ∈ text, set c = true) (enough : least ≤ text.length)
    (few : ∀ bound ∈ most, text.length ≤ bound) : Takes (.repeated set least most) text rest :=
  ⟨_, mem_parses_repeated.mpr ⟨text, rest, rfl, inside, enough, few, rfl⟩, rfl, rfl⟩

theorem Takes.seq {front back : Str} (takesFront : Takes first front (back ++ rest))
    (takesBack : Takes second back rest) : Takes (.seq first second) (front ++ back) rest := by
  obtain ⟨frontMatch, inFirst, rfl, frontRest⟩ := takesFront
  obtain ⟨backMatch, inSecond, rfl, rfl⟩ := takesBack
  rw [← List.append_assoc] at inFirst
  rw [← frontRest] at inSecond
  exact ⟨_, mem_parses_seq.mpr ⟨frontMatch, inFirst, backMatch, inSecond, rfl⟩, rfl, rfl⟩

theorem Takes.absent : Takes (.optional regex) [] rest :=
  ⟨_, mem_parses_optional.mpr (.inr rfl), rfl, rfl⟩

theorem Takes.group {index : ℕ} (takes : Takes regex text rest) :
    Takes (.group index regex) text rest := by
  obtain ⟨inner, inBody, sameText, sameRest⟩ := takes
  exact ⟨_, mem_parses_group.mpr ⟨inner, inBody, rfl⟩, sameText, sameRest⟩

theorem Takes.atEnd : Takes .atEnd [] [] := ⟨_, mem_parses_atEnd.mpr ⟨rfl, rfl⟩, rfl, rfl⟩

/-- **An expression that can take the whole input takes the whole input.** -/
theorem Takes.regexec_eq (takes : Takes regex text []) :
    ∃ found, regexec regex text = some found ∧ found ∈ regex.parses text ∧ found.rest = [] := by
  obtain ⟨way, member, same, -⟩ := takes
  rw [List.append_nil] at member
  obtain ⟨found, answer⟩ := exists_regexec_of_mem member
  obtain ⟨inParses, longest⟩ := regexec_eq_some answer
  have whole : text = found.text ++ found.rest := append_of_mem_parses inParses
  have long : text.length ≤ found.text.length := same ▸ longest way member
  have split : text.length = found.text.length + found.rest.length := by
    rw [← List.length_append, ← whole]
  exact ⟨found, answer, inParses, List.eq_nil_of_length_eq_zero (by omega)⟩

end Regex

end HashArchive
