import HashArchive.Foundations.CProgram

/-!
# Searching for a pattern

A regular expression with alternatives and repetitions of any part, of which only the place of the
match is of interest. `Pattern.lengths` lists how many characters it can take at the start of a
string, and `Pattern.search` is `regexec`: the leftmost place where it can take any, and the most
that it can take there.

What a caller relies on is that the match is inside the string and not shorter than the
pattern needs (`search_eq_some`), so that a search from behind it has less to go.
-/

set_option autoImplicit false

namespace HashArchive

/-- A regular expression. -/
inductive Pattern where
  | empty
  | char (set : Char → Bool)
  | seq (first second : Pattern)
  | either (first second : Pattern)
  | many (body : Pattern)

namespace Pattern

/-- `body+` -/
def many1 (body : Pattern) : Pattern := .seq body (.many body)

/-- `body{0,most}` -/
def atMost (body : Pattern) : ℕ → Pattern
  | 0 => .empty
  | most + 1 => .either (.seq body (atMost body most)) .empty

/-- `body{least,most}` -/
def between (body : Pattern) (least most : ℕ) : Pattern :=
  match least with
  | 0 => atMost body most
  | least + 1 => .seq body (between body least (most - 1))

/-- A literal text. -/
def text : Str → Pattern
  | [] => .empty
  | c :: rest => .seq (.char fun read => read == c) (text rest)

/-- How much a repetition can take in some rounds, none of which takes nothing. -/
def manyLengths (lengths : Str → List ℕ) : ℕ → Str → List ℕ
  | 0, _ => [0]
  | rounds + 1, input => 0 :: ((lengths input).filter (0 < ·)).flatMap fun front =>
      (manyLengths lengths rounds (input.drop front)).map (front + ·)

/-- **How many characters** a pattern can take at the start of a string. -/
def lengths : Pattern → Str → List ℕ
  | .empty => fun _ => [0]
  | .char set => fun
    | [] => []
    | c :: _ => if set c then [1] else []
  | .seq first second => fun input => (lengths first input).flatMap fun front =>
      (lengths second (input.drop front)).map (front + ·)
  | .either first second => fun input => lengths first input ++ lengths second input
  | .many body => fun input => manyLengths (lengths body) input.length input

/-- **`regexec`**: the place and the length of the leftmost match, the longest there. -/
def search (pattern : Pattern) : Str → Option (ℕ × ℕ)
  | [] => (pattern.lengths []).max?.map fun length => (0, length)
  | c :: input =>
    match (pattern.lengths (c :: input)).max? with
    | some length => some (0, length)
    | none => (search pattern input).map fun (start, length) => (start + 1, length)

/-- The least number of characters that a pattern needs. -/
def least : Pattern → ℕ
  | .empty => 0
  | .char _ => 1
  | .seq first second => first.least + second.least
  | .either first second => min first.least second.least
  | .many _ => 0

variable {pattern : Pattern} {input : Str} {length : ℕ}

theorem le_length_of_mem_manyLengths {lengths : Str → List ℕ}
    (fits : ∀ input, ∀ length ∈ lengths input, length ≤ input.length) {rounds : ℕ}
    (member : length ∈ manyLengths lengths rounds input) : length ≤ input.length := by
  induction rounds generalizing input length with
  | zero =>
      rw [List.mem_singleton.mp member]
      exact Nat.zero_le _
  | succ rounds ih =>
      rcases List.mem_cons.mp member with rfl | later
      · exact Nat.zero_le _
      · obtain ⟨front, inFront, inBack⟩ := List.mem_flatMap.mp later
        obtain ⟨back, inRest, rfl⟩ := List.mem_map.mp inBack
        have first := fits input front (List.mem_filter.mp inFront).1
        have second := ih inRest
        rw [List.length_drop] at second
        omega

/-- A pattern takes as much as it needs, and no more than there is. -/
theorem bounds_of_mem_lengths (member : length ∈ pattern.lengths input) :
    pattern.least ≤ length ∧ length ≤ input.length := by
  induction pattern generalizing input length with
  | empty =>
      rw [List.mem_singleton.mp member]
      exact ⟨Nat.le_refl 0, Nat.zero_le _⟩
  | char set =>
      cases input with
      | nil => cases member
      | cons c input =>
          change length ∈ (if set c then [1] else []) at member
          split_ifs at member
          · rw [List.mem_singleton.mp member]
            exact ⟨Nat.le_refl 1, Nat.succ_le_succ (Nat.zero_le _)⟩
          · cases member
  | seq first second ihFirst ihSecond =>
      obtain ⟨front, inFront, inBack⟩ := List.mem_flatMap.mp member
      obtain ⟨back, inRest, rfl⟩ := List.mem_map.mp inBack
      have before := ihFirst inFront
      have after := ihSecond inRest
      rw [List.length_drop] at after
      rw [least]
      omega
  | either first second ihFirst ihSecond =>
      rw [least]
      rcases List.mem_append.mp member with inFirst | inSecond
      · have bounds := ihFirst inFirst
        omega
      · have bounds := ihSecond inSecond
        omega
  | many body ih =>
      exact ⟨Nat.zero_le _, le_length_of_mem_manyLengths (fun _ _ inBody => (ih inBody).2) member⟩

/-- **A match is inside the string**, and no shorter than the pattern needs. -/
theorem search_eq_some {start : ℕ} (found : pattern.search input = some (start, length)) :
    pattern.least ≤ length ∧ start + length ≤ input.length := by
  induction input generalizing start with
  | nil =>
      obtain ⟨longest, isMax, same⟩ := Option.map_eq_some_iff.mp found
      cases same
      have bounds := bounds_of_mem_lengths (List.max?_mem isMax)
      exact ⟨bounds.1, by omega⟩
  | cons c input ih =>
      rw [search] at found
      cases isMax : (pattern.lengths (c :: input)).max? with
      | some longest =>
          rw [isMax] at found
          cases found
          have bounds := bounds_of_mem_lengths (List.max?_mem isMax)
          exact ⟨bounds.1, by omega⟩
      | none =>
          rw [isMax] at found
          obtain ⟨⟨start, longest⟩, later, same⟩ := Option.map_eq_some_iff.mp found
          cases same
          have bounds := ih later
          rw [List.length_cons]
          omega

end Pattern

end HashArchive
