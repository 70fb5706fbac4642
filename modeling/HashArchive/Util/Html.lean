import HashArchive.Foundations.Markup

/-!
# Encoding for HTML

`html_encode` of `html.c` goes through a string twice: once to add up the size of the
result and once to write it into memory of that size. Both loops are a `switch` over the
same list of characters, `ENTITIES`.

Whatever the memory holds, it is filled exactly (`htmlEncode_eq`). The result has no
character that could end a text or an attribute value (`not_mem_encoded`), an ampersand in
it begins an entity (`entity_of_ampersand`), and replacing the entities gives the string
back (`htmlDecode_encoded`).
-/

set_option autoImplicit false

namespace HashArchive.Html

/-- `ENTITIES`. -/
def entities : List (Char × Str) :=
  [('&', "&amp;".toList), ('<', "&lt;".toList), ('>', "&gt;".toList), ('"', "&quot;".toList),
    ('\'', "&#x27;".toList), ('/', "&#x2F;".toList)]

/-- The first loop of `html_encode`. -/
def sizeLoop : Str → ℕ → ℕ
  | [], total => total
  | c :: str, total =>
    match entities.lookup c with
    | some s => sizeLoop str (total + s.length)
    | none => sizeLoop str (total + 1)

/-- The second loop of `html_encode`. -/
def writeLoop : Str → List Char → ℕ → Result (List Char × ℕ)
  | [], enc, j => .ok (enc, j)
  | c :: str, enc, j =>
    match entities.lookup c with
    | some s => do
      let enc ← memcpy enc j s
      writeLoop str enc (j + s.length)
    | none => do
      let enc ← writeCell enc j c
      writeLoop str enc (j + 1)

/-- `html_encode`. The memory that `malloc` gives holds anything. -/
def htmlEncode (memory : Stack) : Option Str → Result (Option Str)
  | none => .ok none
  | some str => do
    let total := sizeLoop str 0
    let enc := memory.uninitializedChars (total + 1)
    let (enc, _) ← writeLoop str enc 0
    let enc ← writeCell enc total nul
    .ok (some (cString enc))

/-! ## What is written -/

/-- What is written for a character. -/
def encodeChar (c : Char) : Str := (entities.lookup c).getD [c]

/-- What is written for a string. -/
def encoded (str : Str) : Str := str.flatMap encodeChar

@[simp] theorem encoded_nil : encoded [] = [] := rfl

theorem encoded_cons (c : Char) (str : Str) : encoded (c :: str) = encodeChar c ++ encoded str :=
  List.flatMap_cons

/-- The first loop adds up the size. -/
theorem sizeLoop_eq (str : Str) (total : ℕ) : sizeLoop str total = total + (encoded str).length := by
  induction str generalizing total with
  | nil => rfl
  | cons c str ih =>
      rw [sizeLoop, encoded_cons, encodeChar]
      cases entities.lookup c with
      | some s =>
          dsimp only [Option.getD_some]
          rw [ih, List.length_append, Nat.add_assoc]
      | none =>
          dsimp only [Option.getD_none]
          rw [ih, List.length_append, Nat.add_assoc]
          rfl

/-- One turn of the second loop. -/
theorem writeLoop_cons (c : Char) (str : Str) (enc : List Char) (j : ℕ) :
    writeLoop (c :: str) enc j =
      memcpy enc j (encodeChar c) >>= fun enc => writeLoop str enc (j + (encodeChar c).length) := by
  rw [writeLoop, encodeChar]
  cases entities.lookup c with
  | some s => rfl
  | none =>
      dsimp only [Option.getD_none]
      rw [writeCell_eq_memcpy]
      rfl

/-- **The second loop fills the cells** after those that are written. -/
theorem writeLoop_eq (str : Str) {written cells rest : List Char}
    (room : cells.length = (encoded str).length) :
    writeLoop str (written ++ (cells ++ rest)) written.length =
      .ok (written ++ encoded str ++ rest, written.length + (encoded str).length) := by
  induction str generalizing written cells with
  | nil =>
      rw [encoded_nil, List.length_nil, List.length_eq_zero_iff] at room
      rw [room, encoded_nil, List.append_nil]
      rfl
  | cons c str ih =>
      rw [encoded_cons, List.length_append] at room
      obtain ⟨here, later, rfl, fits⟩ : ∃ here later, cells = here ++ later ∧
          here.length = (encodeChar c).length :=
        ⟨_, _, (List.take_append_drop (encodeChar c).length cells).symm,
          List.length_take_of_le (by omega)⟩
      rw [List.length_append, fits, Nat.add_left_cancel_iff] at room
      have filled := @ih (written ++ encodeChar c) later room
      rw [List.length_append] at filled
      rw [writeLoop_cons, List.append_assoc, memcpy_append fits, Result.ok_bind, filled,
        encoded_cons, List.length_append, Nat.add_assoc]
      simp only [List.append_assoc]

/-! ## The entities -/

/-- The characters that `html_encode` replaces, other than the ampersand. -/
def markupChars : List Char := ['<', '>', '"', '\'', '/']

theorem mem_entities_iff {c : Char} : (∃ s, (c, s) ∈ entities) ↔ c = '&' ∨ c ∈ markupChars := by
  have keys : entities.map Prod.fst = '&' :: markupChars := rfl
  rw [← List.mem_cons, ← keys, List.mem_map]
  constructor
  · rintro ⟨s, member⟩
    exact ⟨(c, s), member, rfl⟩
  · rintro ⟨entity, member, rfl⟩
    exact ⟨entity.2, member⟩

/-- An entity is an ampersand and characters that are not replaced. -/
theorem ampersand_of_mem_entities : ∀ entity ∈ entities, ∃ tail, entity.2 = '&' :: tail ∧
    ∀ c ∈ tail, c ≠ '&' ∧ c ∉ markupChars ∧ c ≠ nul := by
  -- a quantifier over characters could be decided by going through all of them
  have listed : (entities.all fun entity => decide (entity.2 = '&' :: entity.2.tail) &&
      entity.2.tail.all fun c => decide (c ≠ '&' ∧ c ∉ markupChars ∧ c ≠ nul)) = true := by
    decide
  intro entity member
  have checked := List.all_eq_true.mp listed entity member
  simp only [Bool.and_eq_true, decide_eq_true_eq, List.all_eq_true] at checked
  exact ⟨entity.2.tail, checked⟩

/-- No entity begins with another one. -/
theorem eq_of_isPrefix_entities : ∀ entity ∈ entities, ∀ other ∈ entities,
    entity.2 <+: other.2 → entity = other := by
  decide

/-- A character is replaced by an entity, or is written as it is. -/
theorem encodeChar_cases (c : Char) :
    (c, encodeChar c) ∈ entities ∨ (c ≠ '&' ∧ c ∉ markupChars) ∧ encodeChar c = [c] := by
  unfold encodeChar
  cases found : entities.lookup c with
  | some s =>
      obtain ⟨before, after, split, -⟩ := List.lookup_eq_some_iff.mp found
      left
      rw [split]
      exact List.mem_append_right _ List.mem_cons_self
  | none =>
      right
      refine ⟨?_, rfl⟩
      rw [← not_or, ← mem_entities_iff]
      rintro ⟨s, member⟩
      have other := List.lookup_eq_none_iff.mp found _ member
      exact absurd rfl (bne_iff_ne.mp other)

/-! ## What the result holds -/

/-- No character of the result ends a text or a value. -/
theorem not_mem_encoded {str : Str} {c : Char} (member : c ∈ encoded str) : c ∉ markupChars := by
  obtain ⟨original, -, written⟩ := List.mem_flatMap.mp member
  rcases encodeChar_cases original with entity | ⟨⟨-, plain⟩, same⟩
  · obtain ⟨tail, text, others⟩ := ampersand_of_mem_entities _ entity
    rw [show encodeChar original = '&' :: tail from text] at written
    rcases List.mem_cons.mp written with rfl | later
    · decide
    · exact (others c later).2.1
  · rw [same, List.mem_singleton] at written
    exact written ▸ plain

theorem nul_not_mem_encoded {str : Str} (terminated : nul ∉ str) : nul ∉ encoded str := by
  intro member
  obtain ⟨original, inStr, written⟩ := List.mem_flatMap.mp member
  rcases encodeChar_cases original with entity | ⟨-, same⟩
  · obtain ⟨tail, text, others⟩ := ampersand_of_mem_entities _ entity
    rw [show encodeChar original = '&' :: tail from text] at written
    rcases List.mem_cons.mp written with here | later
    · exact absurd here (by decide)
    · exact (others _ later).2.2 rfl
  · rw [same, List.mem_singleton] at written
    exact terminated (written ▸ inStr)

/-- A character of two texts is in the first or in the second. -/
theorem split_at_char {first second before after : Str} {c : Char}
    (split : first ++ second = before ++ c :: after) :
    (∃ more, before = first ++ more ∧ second = more ++ c :: after) ∨
      ∃ more, first = before ++ c :: more ∧ after = more ++ second := by
  rcases List.append_eq_append_iff.mp split with ⟨more, front, back⟩ | ⟨more, front, back⟩
  · exact .inl ⟨more, front, back⟩
  · cases more with
    | nil =>
        rw [List.append_nil] at front
        exact .inl ⟨[], by rw [front, List.append_nil], back.symm⟩
    | cons next more =>
        cases back
        exact .inr ⟨more, front, rfl⟩

/-- **An ampersand begins an entity.** -/
theorem entity_of_ampersand {str before after : Str} (split : encoded str = before ++ '&' :: after) :
    ∃ entity ∈ entities, entity.2 <+: '&' :: after := by
  induction str generalizing before with
  | nil => exact absurd split.symm (List.append_ne_nil_of_right_ne_nil _ (List.cons_ne_nil _ _))
  | cons c str ih =>
      rw [encoded_cons] at split
      rcases split_at_char split with ⟨more, -, later⟩ | ⟨more, here, rfl⟩
      · exact ih later
      have inside : '&' ∈ encodeChar c := here ▸ List.mem_append_right _ List.mem_cons_self
      rcases encodeChar_cases c with entity | ⟨⟨other, -⟩, same⟩
      · obtain ⟨tail, text, others⟩ := ampersand_of_mem_entities _ entity
        rw [show encodeChar c = '&' :: tail from text] at here
        cases before with
        | nil =>
            refine ⟨_, entity, ?_⟩
            rw [show encodeChar c = '&' :: tail from text, here]
            exact List.prefix_append _ _
        | cons first before =>
            cases here
            exact absurd rfl (others '&' (List.mem_append_right _ List.mem_cons_self)).1
      · rw [same, List.mem_singleton] at inside
        exact absurd inside.symm other

/-! ## Replacing the entities -/

/-- A text with the entities replaced by their characters, without its first `skip`
characters. -/
def decodeFrom : ℕ → Str → Str
  | _, [] => []
  | skip + 1, _ :: rest => decodeFrom skip rest
  | 0, c :: rest =>
    match entities.find? fun entity => entity.2.isPrefixOf (c :: rest) with
    | some entity => entity.1 :: decodeFrom (entity.2.length - 1) rest
    | none => c :: decodeFrom 0 rest

/-- A text with the entities replaced by their characters. -/
def htmlDecode (text : Str) : Str := decodeFrom 0 text

theorem decodeFrom_append (first second : Str) :
    decodeFrom first.length (first ++ second) = htmlDecode second := by
  induction first with
  | nil => rfl
  | cons c first ih => exact ih

/-- An entity is replaced. -/
theorem htmlDecode_entity {entity : Char × Str} (member : entity ∈ entities) (rest : Str) :
    htmlDecode (entity.2 ++ rest) = entity.1 :: htmlDecode rest := by
  obtain ⟨tail, text, -⟩ := ampersand_of_mem_entities _ member
  have found : entities.find? (fun other => other.2.isPrefixOf (entity.2 ++ rest)) = some entity := by
    cases outcome : entities.find? (fun other => other.2.isPrefixOf (entity.2 ++ rest)) with
    | none =>
        have absent := List.find?_eq_none.mp outcome entity member
        exact absurd (List.isPrefixOf_iff_prefix.mpr (List.prefix_append _ _)) absent
    | some other =>
        have here := List.isPrefixOf_iff_prefix.mp (List.find?_eq_some_iff_append.mp outcome).1
        have inList := List.mem_of_find?_eq_some outcome
        rcases List.prefix_or_prefix_of_prefix here (List.prefix_append entity.2 rest) with
          first | second
        · rw [eq_of_isPrefix_entities _ inList _ member first]
        · rw [eq_of_isPrefix_entities _ member _ inList second]
  rw [text, List.cons_append] at found ⊢
  rw [htmlDecode, decodeFrom, found]
  dsimp only
  rw [text, List.length_cons, Nat.add_sub_cancel, decodeFrom_append]

/-- Another character stays. -/
theorem htmlDecode_plain {c : Char} (other : c ≠ '&') (rest : Str) :
    htmlDecode (c :: rest) = c :: htmlDecode rest := by
  have none : entities.find? (fun entity => entity.2.isPrefixOf (c :: rest)) = none := by
    rw [List.find?_eq_none]
    intro entity member
    obtain ⟨tail, text, -⟩ := ampersand_of_mem_entities _ member
    rw [text, List.isPrefixOf_iff_prefix, List.cons_prefix_cons]
    exact fun same => other same.1.symm
  rw [htmlDecode, decodeFrom, none]
  rfl

/-- **Replacing the entities gives the string back.** -/
theorem htmlDecode_encoded (str : Str) : htmlDecode (encoded str) = str := by
  induction str with
  | nil => rfl
  | cons c str ih =>
      rw [encoded_cons]
      rcases encodeChar_cases c with entity | ⟨⟨other, -⟩, same⟩
      · rw [htmlDecode_entity entity, ih]
      · rw [same, List.singleton_append, htmlDecode_plain other, ih]

/-! ## The result -/

/-- **The memory is filled exactly**, whatever it held before: what the second loop writes
ends where the first loop has counted to. -/
theorem htmlEncode_eq (memory : Stack) {str : Str} (terminated : nul ∉ str) :
    (∃ last, writeLoop str (memory.uninitializedChars (sizeLoop str 0 + 1)) 0 =
      .ok (encoded str ++ [last], sizeLoop str 0)) ∧
    htmlEncode memory (some str) = .ok (some (encoded str)) := by
  have total : sizeLoop str 0 = (encoded str).length := by rw [sizeLoop_eq, Nat.zero_add]
  have length := memory.length_uninitializedChars (sizeLoop str 0 + 1)
  obtain ⟨cells, last, whole⟩ : ∃ cells last,
      memory.uninitializedChars (sizeLoop str 0 + 1) = cells ++ [last] :=
    ⟨_, _, (List.dropLast_concat_getLast (List.ne_nil_of_length_eq_add_one length)).symm⟩
  rw [whole, List.length_append, List.length_singleton, Nat.add_right_cancel_iff, total] at length
  have filled : writeLoop str (memory.uninitializedChars (sizeLoop str 0 + 1)) 0 =
      .ok (encoded str ++ [last], sizeLoop str 0) := by
    have written := @writeLoop_eq str [] cells [last] length
    rwa [List.nil_append, List.nil_append, List.length_nil, Nat.zero_add, ← whole, ← total] at written
  refine ⟨⟨last, filled⟩, ?_⟩
  have ended : writeCell (encoded str ++ [last]) (sizeLoop str 0) nul =
      .ok (encoded str ++ [nul]) := writeCell_append_cons _ _ _ _ total
  simp only [htmlEncode, filled, Result.ok_bind, ended,
    cString_append_nul (nul_not_mem_encoded terminated)]

end HashArchive.Html
