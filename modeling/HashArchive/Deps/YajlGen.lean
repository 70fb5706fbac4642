import HashArchive.Foundations.Json
import Mathlib.Algebra.Group.Nat.Defs

/-!
# The generator of JSON

`yajl_gen.c` prints the text of a value in as many calls as the value has parts. It keeps
one state for each level of nesting, in an array of `YAJL_MAX_DEPTH` states; the state says
which separator comes first and whether a key is due. A call returns a status, and the
archive does not look at it.

The text goes to a callback in pieces; `printed` is what the callback was given. The flag
to validate strings is never set and is left out, and so are the calls that nothing uses, those
for other numbers than integers among them.

`emit` are the calls for a value. `emit_reads_iff` says that what they print is read back as
the value, with any flags, exactly when the value is not nested too deep and its strings are
UTF-8.
-/

set_option autoImplicit false

namespace HashArchive.Yajl

open Json

/-! ## The generator -/

/-- `yajl_gen_state`. -/
inductive GenState where
  | start
  | mapStart
  | mapKey
  | mapVal
  | arrayStart
  | inArray
  | complete
  | error
deriving DecidableEq, Repr

/-- `yajl_gen_status`. -/
inductive GenStatus where
  | statusOk
  | keysMustBeStrings
  | maxDepthExceeded
  | inErrorState
  | generationComplete
deriving DecidableEq, Repr

/-- `YAJL_MAX_DEPTH`. -/
def yajlMaxDepth : ℕ := 128

/-- `struct yajl_gen_t`, with the text that was printed. -/
structure Gen where
  beautify : Bool
  escapeSolidus : Bool
  depth : ℕ
  state : List GenState
  printed : Str

/-- A call. -/
abbrev GenCall (α : Type) : Type := StateT Gen Result α

namespace Gen

/-- `yajl_gen_alloc`, and `yajl_gen_config` for the two flags. -/
def alloc (beautify escapeSolidus : Bool) : Gen where
  beautify := beautify
  escapeSolidus := escapeSolidus
  depth := 0
  state := List.replicate yajlMaxDepth .start
  printed := []

/-- `g->state[g->depth]`. -/
def top (g : Gen) : Result GenState :=
  match g.state[g.depth]? with
  | some state => .ok state
  | none => .error (.fault .outOfBounds)

/-- `g->print`. -/
def print (g : Gen) (text : Str) : Gen := { g with printed := g.printed ++ text }

/-- A text that is printed only to beautify. -/
def printBeauty (g : Gen) (text : Str) : Gen := if g.beautify then g.print text else g

/-- `INSERT_SEP`. -/
def insertSep (g : Gen) (top : GenState) : Gen :=
  if top = .mapKey ∨ top = .inArray then (g.print ",".toList).printBeauty "\n".toList
  else if top = .mapVal then (g.print ":".toList).printBeauty " ".toList
  else g

/-- `g->indentString`. -/
def indentString : Str := "    ".toList

/-- `INSERT_WHITESPACE`. -/
def insertWhitespace (g : Gen) (top : GenState) : Gen :=
  if top = .mapVal then g else g.printBeauty (List.replicate g.depth indentString).flatten

end Gen

/-- `ENSURE_VALID_STATE`. -/
def ensureValidState : GenState → Option GenStatus
  | .error => some .inErrorState
  | .complete => some .generationComplete
  | _ => none

/-- `ENSURE_NOT_KEY`. -/
def ensureNotKey : GenState → Option GenStatus
  | .mapKey | .mapStart => some .keysMustBeStrings
  | _ => none

/-- The state of a level after one more value, `APPENDED_ATOM`. -/
def appendedAtom : GenState → GenState
  | .start => .complete
  | .mapStart => .mapVal
  | .mapKey => .mapVal
  | .arrayStart => .inArray
  | .mapVal => .mapKey
  | state => state

namespace Gen

/-- `APPENDED_ATOM` at the level of the generator. -/
def appended (g : Gen) (top : GenState) : Gen :=
  { g with state := g.state.set g.depth (appendedAtom top) }

/-- `FINAL_NEWLINE`. -/
def finalNewline (g : Gen) (top : GenState) : Gen :=
  if top = .complete then g.printBeauty "\n".toList else g

end Gen

/-- A value of one piece. -/
def atom (isString : Bool) (text : Gen → Str) : GenCall GenStatus := fun g => do
  let top ← g.top
  match (ensureValidState top).or (if isString then none else ensureNotKey top) with
  | some status => .ok (status, g)
  | none =>
    let g := (g.insertSep top).insertWhitespace top
    let g := (g.print (text g)).appended top
    .ok (.statusOk, g.finalNewline (appendedAtom top))

/-- The calls that open a level. -/
def opening (bracket : Str) (inside : GenState) : GenCall GenStatus := fun g => do
  let top ← g.top
  match (ensureValidState top).or (ensureNotKey top) with
  | some status => .ok (status, g)
  | none =>
    let g := (g.insertSep top).insertWhitespace top
    let g := { g with depth := (g.depth + 1) % 2 ^ 32 }
    if g.depth ≥ yajlMaxDepth then .ok (.maxDepthExceeded, g)
    else
      let g := { g with state := g.state.set g.depth inside }
      .ok (.statusOk, ((g.print bracket).printBeauty "\n".toList).finalNewline inside)

/-- The calls that close a level. -/
def closing (bracket : Str) : GenCall GenStatus := fun g => do
  let top ← g.top
  match ensureValidState top with
  | some status => .ok (status, g)
  | none =>
    let g := { g with depth := (g.depth + (2 ^ 32 - 1)) % 2 ^ 32 }
    if g.depth ≥ yajlMaxDepth then .ok (.generationComplete, g)
    else
      let g := g.printBeauty "\n".toList
      let top ← g.top
      let g := (g.appended top).insertWhitespace (appendedAtom top)
      .ok (.statusOk, (g.print bracket).finalNewline (appendedAtom top))

/-! ### Strings -/

/-- `hexchar` of `CharToHex`. -/
def hexchar (n : ℕ) : Char := "0123456789ABCDEF".toList.getD n nul

/-- `escaped`, where it is not `NULL`. -/
def escaped (escapeSolidus : Bool) (c : Char) : Option Str :=
  match c with
  | '\r' => some "\\r".toList
  | '\n' => some "\\n".toList
  | '\\' => some "\\\\".toList
  | '/' => if escapeSolidus then some "\\/".toList else none
  | '"' => some "\\\"".toList
  | '\x0c' => some "\\f".toList
  | '\x08' => some "\\b".toList
  | '\t' => some "\\t".toList
  | _ =>
    if c.toNat < 32 then some ("\\u00".toList ++ [hexchar (c.toNat / 16), hexchar (c.toNat % 16)])
    else none

/-- The loop of `yajl_string_encode`: the pieces that are printed from `end` on, when the
bytes from `beg` on are yet to be printed. -/
def yajlStringEncodeLoop (escapeSolidus : Bool) (str : Str) : ℕ → ℕ → Str → List Str
  | beg, end_, [] => [(str.drop beg).take (end_ - beg)]
  | beg, end_, c :: rest =>
    match escaped escapeSolidus c with
    | some text =>
      (str.drop beg).take (end_ - beg) :: text ::
        yajlStringEncodeLoop escapeSolidus str (end_ + 1) (end_ + 1) rest
    | none => yajlStringEncodeLoop escapeSolidus str beg (end_ + 1) rest

/-- `yajl_string_encode`. -/
def yajlStringEncode (escapeSolidus : Bool) (str : Str) : Str :=
  (yajlStringEncodeLoop escapeSolidus str 0 0 str).flatten

/-! ### The calls -/

/-- `yajl_gen_null`. -/
def yajlGenNull : GenCall GenStatus := atom false fun _ => "null".toList

/-- `yajl_gen_bool`. -/
def yajlGenBool (boolean : Bool) : GenCall GenStatus :=
  atom false fun _ => if boolean then "true".toList else "false".toList

/-- `yajl_gen_integer`. -/
def yajlGenInteger (number : ℤ) : GenCall GenStatus := atom false fun _ => integerText number

/-- `yajl_gen_string`. -/
def yajlGenString (str : Str) : GenCall GenStatus :=
  atom true fun g => '"' :: (yajlStringEncode g.escapeSolidus str ++ ['"'])

/-- `yajl_gen_map_open`. -/
def yajlGenMapOpen : GenCall GenStatus := opening ['{'] .mapStart

/-- `yajl_gen_map_close`. -/
def yajlGenMapClose : GenCall GenStatus := closing ['}']

/-- `yajl_gen_array_open`. -/
def yajlGenArrayOpen : GenCall GenStatus := opening ['['] .arrayStart

/-- `yajl_gen_array_close`. -/
def yajlGenArrayClose : GenCall GenStatus := closing [']']

/-! ## Strings are read back -/

theorem hexByte_hexchar : ∀ n < 32,
    hexByte '0' '0' (hexchar (n / 16)) (hexchar (n % 16)) = some (Char.ofNat n) := by
  decide

/-- What is printed for a character. -/
def spelled (escapeSolidus : Bool) (c : Char) : Str := (escaped escapeSolidus c).getD [c]

/-- A character that is not escaped is read as it is. -/
theorem spells_of_escaped_none {escapeSolidus : Bool} {c : Char}
    (plain : escaped escapeSolidus c = none) : Spells c [c] := by
  intro rest
  have visible : c ≠ '"' ∧ c ≠ '\\' ∧ ¬ c.toNat < 0x20 := by
    refine ⟨?_, ?_, fun small => ?_⟩
    · rintro rfl
      cases plain
    · rintro rfl
      cases plain
    · unfold escaped at plain
      split at plain
      case h_4 => exact absurd small (by decide)
      case h_9 =>
        rw [if_pos small] at plain
        cases plain
      all_goals cases plain
  rw [List.singleton_append, readChars, if_neg (by simp [visible])]
  · exact fun same => absurd same visible.1
  · exact fun _ _ _ _ _ same _ => absurd same visible.2.1
  · exact fun _ _ same _ => absurd same visible.2.1

/-- **A character is read back** from what is printed for it. -/
theorem spells_spelled (escapeSolidus : Bool) (c : Char) : Spells c (spelled escapeSolidus c) := by
  unfold spelled
  cases escape : escaped escapeSolidus c with
  | none => exact spells_of_escaped_none escape
  | some text =>
      intro rest
      unfold escaped at escape
      split at escape
      case h_4 =>
        split_ifs at escape
        cases escape
        rfl
      case h_9 =>
        split_ifs at escape with small
        cases escape
        show (hexByte '0' '0' (hexchar (c.toNat / 16)) (hexchar (c.toNat % 16))).bind _ = _
        rw [hexByte_hexchar _ small, Char.ofNat_toNat]
        rfl
      all_goals
        cases escape
        rfl

/-- What is pending is printed before the rest. -/
theorem flatten_yajlStringEncodeLoop (escapeSolidus : Bool) {str before rest : Str} {beg end_ : ℕ}
    (split : str = before ++ rest) (here : end_ = before.length) (atMost : beg ≤ end_) :
    (yajlStringEncodeLoop escapeSolidus str beg end_ rest).flatten =
      before.drop beg ++ rest.flatMap (spelled escapeSolidus) := by
  have pending {beg : ℕ} {rest before : Str} (split : str = before ++ rest)
      (atMost : beg ≤ before.length) :
      (str.drop beg).take (before.length - beg) = before.drop beg := by
    rw [split, List.take_drop, List.take_left' (by omega)]
  induction rest generalizing before beg end_ with
  | nil =>
      rw [yajlStringEncodeLoop, here, pending split (here ▸ atMost)]
      simp
  | cons c rest ih =>
      have longer : str = (before ++ [c]) ++ rest := by rw [split, List.append_assoc]; rfl
      rw [yajlStringEncodeLoop, List.flatMap_cons, spelled]
      cases escaped escapeSolidus c with
      | none =>
          dsimp only
          rw [ih longer (by simp [here]) (by omega), List.drop_append_of_le_length (by omega),
            List.append_assoc]
          rfl
      | some text =>
          dsimp only
          rw [List.flatten_cons, List.flatten_cons, ih longer (by simp [here]) (le_refl _), here,
            pending split (here ▸ atMost)]
          simp

/-- **A string is printed** character by character. -/
theorem yajlStringEncode_eq (escapeSolidus : Bool) (str : Str) :
    yajlStringEncode escapeSolidus str = str.flatMap (spelled escapeSolidus) :=
  @flatten_yajlStringEncodeLoop escapeSolidus str [] str 0 0 rfl rfl (le_refl _)

/-! ## What a call does -/

/-- **Where a generator stands**: the states of the levels below, the state of its own level,
and what was printed. -/
structure Stands (g : Gen) (below : List GenState) (top : GenState) (printed : Str) : Prop where
  depth : g.depth = below.length
  state : ∃ above, g.state = below ++ top :: above
  room : g.state.length = yajlMaxDepth
  printed : g.printed = printed

/-- What separates a value from the one before. -/
def mark (state : GenState) : Str :=
  if state = .mapKey ∨ state = .inArray then [','] else if state = .mapVal then [':'] else []

namespace Stands

variable {g : Gen} {below : List GenState} {top : GenState} {printed : Str}

theorem alloc (beautify escapeSolidus : Bool) :
    Stands (.alloc beautify escapeSolidus) [] .start [] where
  depth := rfl
  state := ⟨List.replicate 127 .start, rfl⟩
  room := rfl
  printed := rfl

theorem top_eq (stands : Stands g below top printed) : g.top = .ok top := by
  obtain ⟨above, state⟩ := stands.state
  rw [Gen.top, stands.depth, state, List.getElem?_append_right (Nat.le_refl _), Nat.sub_self]
  rfl

theorem depth_lt (stands : Stands g below top printed) : below.length < yajlMaxDepth := by
  obtain ⟨above, state⟩ := stands.state
  rw [← stands.room, state, List.length_append, List.length_cons]
  omega

theorem print (stands : Stands g below top printed) (text : Str) :
    Stands (g.print text) below top (printed ++ text) where
  depth := stands.depth
  state := stands.state
  room := stands.room
  printed := by rw [Gen.print, stands.printed]

theorem printBeauty (stands : Stands g below top printed) {text : Str} (space : Spaces text) :
    ∃ spaces, Spaces spaces ∧ Stands (g.printBeauty text) below top (printed ++ spaces) := by
  unfold Gen.printBeauty
  split
  · exact ⟨text, space, stands.print text⟩
  · exact ⟨[], spaces_nil, by rwa [List.append_nil]⟩

theorem insertSep (stands : Stands g below top printed) :
    ∃ spaces, Spaces spaces ∧
      Stands (g.insertSep top) below top (printed ++ (mark top ++ spaces)) := by
  have after (symbol : Str) {text : Str} (space : Spaces text) : ∃ spaces, Spaces spaces ∧
      Stands ((g.print symbol).printBeauty text) below top (printed ++ (symbol ++ spaces)) := by
    obtain ⟨spaces, isSpaces, stands⟩ := (stands.print symbol).printBeauty space
    exact ⟨spaces, isSpaces, by rwa [← List.append_assoc]⟩
  unfold Gen.insertSep mark
  split_ifs
  · exact after [','] (by simp [Spaces, isSpace])
  · exact after [':'] (by simp [Spaces, isSpace])
  · exact ⟨[], spaces_nil, by simpa using stands⟩

theorem insertWhitespace (stands : Stands g below top printed) (state : GenState) :
    ∃ spaces, Spaces spaces ∧ Stands (g.insertWhitespace state) below top (printed ++ spaces) := by
  unfold Gen.insertWhitespace
  split
  · exact ⟨[], spaces_nil, by rwa [List.append_nil]⟩
  · refine stands.printBeauty fun c member => ?_
    obtain ⟨text, inIndent, inText⟩ := List.mem_flatten.mp member
    rw [List.eq_of_mem_replicate inIndent] at inText
    rw [List.eq_of_mem_replicate (show c ∈ List.replicate 4 ' ' from inText)]
    rfl

/-- The separator is printed, and spaces. -/
theorem insert (stands : Stands g below top printed) :
    ∃ spaces, Spaces spaces ∧ Stands ((g.insertSep top).insertWhitespace top) below top
      (printed ++ (mark top ++ spaces)) := by
  obtain ⟨first, firstSpaces, stands⟩ := stands.insertSep
  obtain ⟨second, secondSpaces, stands⟩ := stands.insertWhitespace top
  refine ⟨first ++ second, List.forall_mem_append.mpr ⟨firstSpaces, secondSpaces⟩, ?_⟩
  simpa only [List.append_assoc] using stands

theorem appended (stands : Stands g below top printed) (state : GenState) :
    Stands (g.appended state) below (appendedAtom state) printed where
  depth := stands.depth
  state := by
    obtain ⟨above, shape⟩ := stands.state
    refine ⟨above, ?_⟩
    rw [Gen.appended, stands.depth, shape, List.set_append_right _ _ (Nat.le_refl _), Nat.sub_self]
    rfl
  room := by rw [Gen.appended, List.length_set, stands.room]
  printed := stands.printed

theorem finalNewline (stands : Stands g below top printed) (state : GenState) :
    ∃ spaces, Spaces spaces ∧ Stands (g.finalNewline state) below top (printed ++ spaces) := by
  unfold Gen.finalNewline
  split
  · exact stands.printBeauty (by simp [Spaces, isSpace])
  · exact ⟨[], spaces_nil, by rwa [List.append_nil]⟩

/-- **A value of one piece** is printed after its separator. -/
theorem atom (stands : Stands g below top printed) {isString : Bool} (text : Gen → Str)
    (allowed : (ensureValidState top).or (if isString then none else ensureNotKey top) = none) :
    ∃ before trail inserted after, atom isString text g = .ok (.statusOk, after) ∧
      Spaces before ∧ Spaces trail ∧ Stands after below (appendedAtom top)
        (printed ++ (mark top ++ (before ++ (text inserted ++ trail)))) := by
  obtain ⟨before, beforeSpaces, inserted⟩ := stands.insert
  obtain ⟨trail, trailSpaces, ended⟩ :=
    ((inserted.print (text ((g.insertSep top).insertWhitespace top))).appended top).finalNewline
      (appendedAtom top)
  refine ⟨before, trail, (g.insertSep top).insertWhitespace top, ?after, ?run, beforeSpaces,
    trailSpaces, ?stands⟩
  case stands => simpa only [List.append_assoc] using ended
  case run => rw [Yajl.atom, stands.top_eq, Result.ok_bind, allowed]

/-- A level is opened. -/
theorem opening (stands : Stands g below top printed) {bracket : Str} {inside : GenState}
    (allowed : (ensureValidState top).or (ensureNotKey top) = none)
    (room : below.length + 1 < yajlMaxDepth) :
    ∃ before trail after, opening bracket inside g = .ok (.statusOk, after) ∧
      Spaces before ∧ Spaces trail ∧ Stands after (below ++ [top]) inside
        (printed ++ (mark top ++ (before ++ (bracket ++ trail)))) := by
  obtain ⟨before, beforeSpaces, inserted⟩ := stands.insert
  have deeper : (((g.insertSep top).insertWhitespace top).depth + 1) % 2 ^ 32 =
      below.length + 1 := by
    rw [inserted.depth, Nat.mod_eq_of_lt (lt_trans room (by decide))]
  have opened : Stands { (g.insertSep top).insertWhitespace top with
      depth := below.length + 1
      state := ((g.insertSep top).insertWhitespace top).state.set (below.length + 1) inside }
      (below ++ [top]) inside (printed ++ (mark top ++ before)) := by
    obtain ⟨above, shape⟩ := inserted.state
    refine ⟨by simp, ?_, by rw [List.length_set, inserted.room], inserted.printed⟩
    have full := inserted.room
    rw [shape, List.length_append, List.length_cons] at full
    obtain ⟨old, above, rfl⟩ := List.exists_cons_of_ne_nil (show above ≠ [] by
      rintro rfl
      rw [List.length_nil] at full
      omega)
    refine ⟨above, ?_⟩
    show ((g.insertSep top).insertWhitespace top).state.set (below.length + 1) inside = _
    rw [shape, List.set_append_right _ _ (Nat.le_succ _),
      Nat.succ_sub (Nat.le_refl _), Nat.sub_self, List.append_assoc]
    rfl
  obtain ⟨line, lineSpaces, opened⟩ :=
    (opened.print bracket).printBeauty (show Spaces "\n".toList by simp [Spaces, isSpace])
  obtain ⟨trail, trailSpaces, opened⟩ := opened.finalNewline inside
  refine ⟨before, line ++ trail, ?after, ?run, beforeSpaces,
    List.forall_mem_append.mpr ⟨lineSpaces, trailSpaces⟩, ?stands⟩
  case stands => simpa only [List.append_assoc] using opened
  case run =>
    rw [Yajl.opening, stands.top_eq, Result.ok_bind, allowed]
    dsimp only
    rw [deeper, if_neg (by omega)]

/-- A level is closed. -/
theorem closing {outer : GenState} (stands : Stands g (below ++ [outer]) top printed)
    {bracket : Str} (allowed : ensureValidState top = none) :
    ∃ before trail after, closing bracket g = .ok (.statusOk, after) ∧
      Spaces before ∧ Spaces trail ∧ Stands after below (appendedAtom outer)
        (printed ++ (before ++ (bracket ++ trail))) := by
  have room := stands.depth_lt
  rw [List.length_append, List.length_singleton] at room
  have shallower : (g.depth + (2 ^ 32 - 1)) % 2 ^ 32 = below.length := by
    rw [stands.depth, List.length_append, List.length_singleton]
    have small : yajlMaxDepth ≤ 2 ^ 32 := by decide
    omega
  have closed : Stands { g with depth := below.length } below outer printed := by
    obtain ⟨above, shape⟩ := stands.state
    exact ⟨rfl, ⟨top :: above, by simp [shape]⟩, stands.room, stands.printed⟩
  obtain ⟨line, lineSpaces, closed⟩ :=
    closed.printBeauty (show Spaces "\n".toList by simp [Spaces, isSpace])
  obtain ⟨indent, indentSpaces, ended⟩ :=
    (closed.appended outer).insertWhitespace (appendedAtom outer)
  obtain ⟨trail, trailSpaces, ended⟩ := (ended.print bracket).finalNewline (appendedAtom outer)
  refine ⟨line ++ indent, trail, ?after, ?run,
    List.forall_mem_append.mpr ⟨lineSpaces, indentSpaces⟩, trailSpaces, ?stands⟩
  case stands => simpa only [List.append_assoc] using ended
  case run =>
    rw [Yajl.closing, stands.top_eq, Result.ok_bind, allowed]
    dsimp only
    rw [shallower, if_neg (by omega), closed.top_eq]
    rfl

end Stands

/-! ## The calls for a value -/

mutual

/-- The calls that print a value. -/
def emit : Json → GenCall Unit
  | .null => discard yajlGenNull
  | .bool boolean => discard (yajlGenBool boolean)
  | .integer number => discard (yajlGenInteger number)
  | .string str => discard (yajlGenString str)
  | .array items => do
    discard yajlGenArrayOpen
    emitItems items
    discard yajlGenArrayClose
  | .object members => do
    discard yajlGenMapOpen
    emitMembers members
    discard yajlGenMapClose

/-- The calls for the items of an array. -/
def emitItems : List Json → GenCall Unit
  | [] => pure ()
  | item :: items => do
    emit item
    emitItems items

/-- The calls for the members of an object. -/
def emitMembers : List (Str × Json) → GenCall Unit
  | [] => pure ()
  | (key, value) :: members => do
    discard (yajlGenString key)
    emit value
    emitMembers members

end

mutual

/-- How deep the levels of a value are nested. -/
def nesting : Json → ℕ
  | .array items => nestingItems items + 1
  | .object members => nestingMembers members + 1
  | _ => 0

/-- How deep the items of an array are nested. -/
def nestingItems : List Json → ℕ
  | [] => 0
  | item :: items => max (nesting item) (nestingItems items)

/-- How deep the members of an object are nested. -/
def nestingMembers : List (Str × Json) → ℕ
  | [] => 0
  | (_, value) :: members => max (nesting value) (nestingMembers members)

end

/-- A generator at a place for a value. -/
def Ready (top : GenState) : Prop := (ensureValidState top).or (ensureNotKey top) = none

/-- A call whose status is not looked at. -/
theorem discard_ok {call : GenCall GenStatus} {g after : Gen} {status : GenStatus}
    (run : call g = .ok (status, after)) : (discard call : GenCall Unit) g = .ok ((), after) := by
  show (call g >>= fun done => .ok ((), done.2)) = _
  rw [run]
  rfl

theorem bind_ok {α : Type} {first : GenCall Unit} {next : GenCall α} {g middle : Gen}
    (run : first g = .ok ((), middle)) : (first >>= fun _ => next) g = next middle := by
  show (first g >>= fun done => next done.2) = _
  rw [run]
  rfl

theorem reads_string {str : Str} (utf8 : isUtf8 str = true) (g : Gen) :
    Reads (.string str) ('"' :: (yajlStringEncode g.escapeSolidus str ++ ['"'])) := by
  rw [yajlStringEncode_eq]
  exact .string (fun c _ => spells_spelled _ c) utf8

/-- A value of one piece whose status is not looked at. -/
theorem emit_atom {value : Json} {isString : Bool} {text : Gen → Str}
    (reads : value.Utf8 → ∀ g, Reads value (text g)) {g : Gen} {below : List GenState} {top : GenState}
    {printed : Str} (stands : Stands g below top printed)
    (allowed : (ensureValidState top).or (if isString then none else ensureNotKey top) = none) :
    ∃ text' trail after, (discard (atom isString text) : GenCall Unit) g = .ok ((), after) ∧
      (value.Utf8 → Reads value text') ∧ Spaces trail ∧
      Stands after below (appendedAtom top) (printed ++ (mark top ++ (text' ++ trail))) := by
  obtain ⟨before, trail, inserted, after, run, beforeSpaces, trailSpaces, ended⟩ :=
    stands.atom text allowed
  exact ⟨before ++ text inserted, trail, after, discard_ok run,
    fun utf8 => (reads utf8 inserted).spaces beforeSpaces, trailSpaces,
    by rwa [List.append_assoc]⟩

/-- A level that is opened, filled and closed. -/
theorem bracketed {value : Json} {inside : GenState} {opens closes : Str}
    {fill : GenCall Unit} {g : Gen} {below : List GenState} {top : GenState} {printed : Str}
    (stands : Stands g below top printed) (ready : Ready top)
    (room : below.length + 1 < yajlMaxDepth)
    (fills : ∀ {g printed}, Stands g (below ++ [top]) inside printed →
      ∃ body filling after, fill g = .ok ((), after) ∧ ensureValidState filling = none ∧
        (value.Utf8 → ∀ before trail, Spaces before → Spaces trail →
          Reads value (opens ++ (before ++ (body ++ (trail ++ closes))))) ∧
        Stands after (below ++ [top]) filling (printed ++ body)) :
    ∃ text trail after, (do discard (opening opens inside); fill; discard (closing closes)) g =
        .ok ((), after) ∧ (value.Utf8 → Reads value text) ∧ Spaces trail ∧
      Stands after below (appendedAtom top) (printed ++ (mark top ++ (text ++ trail))) := by
  obtain ⟨before, line, opened, openRun, beforeSpaces, lineSpaces, stands⟩ :=
    @Stands.opening _ _ _ _ stands opens inside ready room
  obtain ⟨body, filling, filled, fillRun, goesOn, reads, stands⟩ := fills stands
  obtain ⟨indent, trail, after, closeRun, indentSpaces, trailSpaces, ended⟩ :=
    @Stands.closing _ _ _ _ _ stands closes goesOn
  refine ⟨before ++ (opens ++ (line ++ (body ++ (indent ++ closes)))), trail, after, ?_,
    fun utf8 => (reads utf8 line indent lineSpaces indentSpaces).spaces beforeSpaces,
    trailSpaces, ?_⟩
  · rw [bind_ok (discard_ok openRun), bind_ok fillRun, discard_ok closeRun]
  · simpa only [List.append_assoc] using ended

mutual

/-- **The calls for a value** print a text that is read as the value, when it is UTF-8. -/
theorem emit_stands (value : Json) {g : Gen} {below : List GenState} {top : GenState}
    {printed : Str} (stands : Stands g below top printed) (ready : Ready top)
    (room : below.length + nesting value < yajlMaxDepth) :
    ∃ text trail after, emit value g = .ok ((), after) ∧ (value.Utf8 → Reads value text) ∧
      Spaces trail ∧
      Stands after below (appendedAtom top) (printed ++ (mark top ++ (text ++ trail))) := by
  cases value with
  | null => exact @emit_atom _ false _ (fun _ _ => .null) _ _ _ _ stands ready
  | bool boolean => exact @emit_atom _ false _ (fun _ _ => .bool boolean) _ _ _ _ stands ready
  | integer number => exact @emit_atom _ false _ (fun _ _ => .integer number) _ _ _ _ stands ready
  | string str =>
      exact @emit_atom _ true _ (fun utf8 => reads_string utf8) _ _ _ _ stands
        (Option.or_eq_none_iff.mpr ⟨(Option.or_eq_none_iff.mp ready).1, rfl⟩)
  | array items =>
      rw [nesting] at room
      refine bracketed stands ready (by omega) fun {g printed} stands => ?_
      by_cases empty : items = []
      · subst empty
        exact ⟨[], _, g, rfl, rfl, fun _ before trail beforeSpaces trailSpaces => by
          simpa using Reads.array_nil (List.forall_mem_append.mpr ⟨beforeSpaces, trailSpaces⟩),
          by rwa [List.append_nil]⟩
      · obtain ⟨body, after, run, reads, stands⟩ := emitItems_stands items empty stands (.inl rfl)
          (by rw [List.length_append, List.length_singleton]; omega)
        exact ⟨body, _, after, run, rfl, fun utf8 before trail beforeSpaces trailSpaces =>
          .array (reads utf8 before trail beforeSpaces trailSpaces), stands⟩
  | object members =>
      rw [nesting] at room
      refine bracketed stands ready (by omega) fun {g printed} stands => ?_
      by_cases empty : members = []
      · subst empty
        exact ⟨[], _, g, rfl, rfl, fun _ before trail beforeSpaces trailSpaces => by
          simpa using Reads.object_nil (List.forall_mem_append.mpr ⟨beforeSpaces, trailSpaces⟩),
          by rwa [List.append_nil]⟩
      · obtain ⟨body, after, run, reads, stands⟩ :=
          emitMembers_stands members empty stands (.inl rfl)
            (by rw [List.length_append, List.length_singleton]; omega)
        exact ⟨body, _, after, run, rfl, fun utf8 before trail beforeSpaces trailSpaces =>
          .object (reads utf8 before trail beforeSpaces trailSpaces), stands⟩

/-- The calls for the items of an array that is not empty. -/
theorem emitItems_stands (items : List Json) (nonempty : items ≠ []) {g : Gen}
    {below : List GenState} {top : GenState} {printed : Str} (stands : Stands g below top printed)
    (inside : top = .arrayStart ∨ top = .inArray)
    (room : below.length + nestingItems items < yajlMaxDepth) :
    ∃ body after, emitItems items g = .ok ((), after) ∧
      (Utf8Items items → ∀ before trail, Spaces before → Spaces trail →
        ReadsItems items (before ++ (body ++ (trail ++ [']'])))) ∧
      Stands after below .inArray (printed ++ (mark top ++ body)) := by
  cases items with
  | nil => exact absurd rfl nonempty
  | cons item items =>
      have ready : Ready top := by rcases inside with rfl | rfl <;> rfl
      have appended : appendedAtom top = .inArray := by rcases inside with rfl | rfl <;> rfl
      rw [nestingItems] at room
      obtain ⟨text, space, middle, run, reads, spaces, stands⟩ :=
        emit_stands item stands ready (by omega)
      rw [appended] at stands
      by_cases last : items = []
      · subst last
        refine ⟨text ++ space, middle, ?_, fun utf8 before trail beforeSpaces trailSpaces => ?_,
          stands⟩
        · rw [emitItems, bind_ok run]
          rfl
        · simpa using ReadsItems.last ((reads utf8.1).spaces beforeSpaces)
            (List.forall_mem_append.mpr ⟨spaces, trailSpaces⟩)
      · obtain ⟨body, after, others, readsOthers, stands⟩ :=
          emitItems_stands items last stands (.inr rfl) (by omega)
        refine ⟨text ++ (space ++ ',' :: body), after, ?_,
          fun utf8 before trail beforeSpaces trailSpaces => ?_, ?_⟩
        · rw [emitItems, bind_ok run, others]
        · simpa using ReadsItems.more ((reads utf8.1).spaces beforeSpaces) spaces
            (readsOthers utf8.2 [] trail spaces_nil trailSpaces)
        · simpa [mark] using stands

/-- The calls for the members of an object that is not empty. -/
theorem emitMembers_stands (members : List (Str × Json)) (nonempty : members ≠ []) {g : Gen}
    {below : List GenState} {top : GenState} {printed : Str} (stands : Stands g below top printed)
    (inside : top = .mapStart ∨ top = .mapKey)
    (room : below.length + nestingMembers members < yajlMaxDepth) :
    ∃ body after, emitMembers members g = .ok ((), after) ∧
      (Utf8Members members → ∀ before trail, Spaces before → Spaces trail →
        ReadsMembers members (before ++ (body ++ (trail ++ ['}'])))) ∧
      Stands after below .mapKey (printed ++ (mark top ++ body)) := by
  cases members with
  | nil => exact absurd rfl nonempty
  | cons member members =>
      obtain ⟨key, value⟩ := member
      have allowed : ensureValidState top = none := by rcases inside with rfl | rfl <;> rfl
      have appended : appendedAtom top = .mapVal := by rcases inside with rfl | rfl <;> rfl
      rw [nestingMembers] at room
      obtain ⟨first, between, inserted, atKey, keyRun, firstSpaces, betweenSpaces, stands⟩ :=
        @Stands.atom _ _ _ _ stands true
          (fun g => '"' :: (yajlStringEncode g.escapeSolidus key ++ ['"']))
          (Option.or_eq_none_iff.mpr ⟨allowed, rfl⟩)
      rw [appended] at stands
      let spell := spelled inserted.escapeSolidus
      have spells : ∀ c ∈ key, Spells c (spell c) := fun c _ => spells_spelled _ c
      obtain ⟨text, space, middle, run, reads, spaces, stands⟩ :=
        emit_stands value stands rfl (by omega)
      rw [yajlStringEncode_eq, show spelled inserted.escapeSolidus = spell from rfl] at stands
      by_cases last : members = []
      · subst last
        refine ⟨first ++ (quoted spell key ++ (between ++ ':' :: (text ++ space))), middle, ?_,
          fun utf8 before trail beforeSpaces trailSpaces => ?_, ?_⟩
        · rw [emitMembers, yajlGenString, bind_ok (discard_ok keyRun), bind_ok run]
          rfl
        · simpa using ReadsMembers.last spells utf8.1
            (List.forall_mem_append.mpr ⟨beforeSpaces, firstSpaces⟩) betweenSpaces (reads utf8.2.1)
            (List.forall_mem_append.mpr ⟨spaces, trailSpaces⟩)
        · simpa [mark, quoted, appendedAtom] using stands
      · obtain ⟨body, after, others, readsOthers, stands⟩ :=
          emitMembers_stands members last stands (.inr rfl) (by omega)
        refine ⟨first ++ (quoted spell key ++ (between ++ ':' :: (text ++ (space ++ ',' :: body)))),
          after, ?_, fun utf8 before trail beforeSpaces trailSpaces => ?_, ?_⟩
        · rw [emitMembers, yajlGenString, bind_ok (discard_ok keyRun), bind_ok run, others]
        · simpa using ReadsMembers.more spells utf8.1
            (List.forall_mem_append.mpr ⟨beforeSpaces, firstSpaces⟩) betweenSpaces (reads utf8.2.1)
            spaces (readsOthers utf8.2.2 [] trail spaces_nil trailSpaces)
        · simpa [mark, quoted, appendedAtom] using stands

end

/-! ## Values that are nested too deep -/

/-- An access past the last level. -/
abbrev overrun : Failure := .fault .outOfBounds

theorem bind_error {α β : Type} {first : GenCall α} {next : α → GenCall β} {g : Gen}
    (run : first g = .error overrun) : (first >>= next) g = .error overrun := by
  show (first g >>= fun done => next done.1 done.2) = _
  rw [run]
  rfl

theorem discard_error {call : GenCall GenStatus} {g : Gen} (run : call g = .error overrun) :
    (discard call : GenCall Unit) g = .error overrun := by
  show (call g >>= fun done => .ok ((), done.2)) = _
  rw [run]
  rfl

/-- Every call reads the state of its level first. -/
theorem call_overrun {g : Gen} (deep : g.top = .error overrun) :
    (∀ isString text, atom isString text g = .error overrun) ∧
      (∀ bracket inside, opening bracket inside g = .error overrun) ∧
        ∀ bracket, closing bracket g = .error overrun := by
  refine ⟨fun isString text => ?_, fun bracket inside => ?_, fun bracket => ?_⟩
  · rw [atom, deep]
    rfl
  · rw [opening, deep]
    rfl
  · rw [closing, deep]
    rfl

theorem emit_overrun {g : Gen} (deep : g.top = .error overrun) (value : Json) :
    emit value g = .error overrun := by
  obtain ⟨atoms, openings, -⟩ := call_overrun deep
  cases value with
  | null => exact discard_error (atoms _ _)
  | bool boolean => exact discard_error (atoms _ _)
  | integer number => exact discard_error (atoms _ _)
  | string str => exact discard_error (atoms _ _)
  | array items => exact bind_error (discard_error (openings _ _))
  | object members => exact bind_error (discard_error (openings _ _))

/-- The last level that is opened has no state. -/
theorem opening_overrun {g : Gen} {below : List GenState} {top : GenState} {printed : Str}
    (stands : Stands g below top printed) (ready : Ready top)
    (last : below.length + 1 = yajlMaxDepth) (bracket : Str) (inside : GenState) :
    ∃ after, opening bracket inside g = .ok (.maxDepthExceeded, after) ∧
      after.top = .error overrun := by
  obtain ⟨spaces, -, inserted⟩ := stands.insert
  have deeper : (((g.insertSep top).insertWhitespace top).depth + 1) % 2 ^ 32 = yajlMaxDepth := by
    rw [inserted.depth, last]
    rfl
  refine ⟨?after, ?run, ?top⟩
  case run =>
    rw [opening, stands.top_eq, Result.ok_bind, show (ensureValidState top).or _ = none from ready]
    dsimp only
    rw [deeper, if_pos (Nat.le_refl _)]
  case top =>
    rw [Gen.top, List.getElem?_eq_none (show _ ≤ _ from inserted.room.le)]

mutual

/-- **A value that is nested too deep** makes the generator read past its levels. -/
theorem emit_deep (value : Json) {g : Gen} {below : List GenState} {top : GenState}
    {printed : Str} (stands : Stands g below top printed) (ready : Ready top)
    (deep : yajlMaxDepth ≤ below.length + nesting value) : emit value g = .error overrun := by
  have here := stands.depth_lt
  cases value with
  | array items =>
      rw [nesting] at deep
      by_cases last : below.length + 1 = yajlMaxDepth
      · obtain ⟨after, run, top⟩ := opening_overrun stands ready last ['['] .arrayStart
        rw [emit, yajlGenArrayOpen, bind_ok (discard_ok run)]
        cases items with
        | nil =>
            rw [bind_ok (show emitItems [] after = .ok ((), after) from rfl)]
            exact discard_error ((call_overrun top).2.2 _)
        | cons item items => exact bind_error (bind_error (emit_overrun top item))
      · obtain ⟨before, line, opened, run, -, -, stands⟩ :=
          @Stands.opening _ _ _ _ stands ['['] .arrayStart ready (by omega)
        rw [emit, yajlGenArrayOpen, bind_ok (discard_ok run)]
        refine bind_error (emitItems_deep items stands (.inl rfl) ?_)
        rw [List.length_append, List.length_singleton]
        omega
  | object members =>
      rw [nesting] at deep
      by_cases last : below.length + 1 = yajlMaxDepth
      · obtain ⟨after, run, top⟩ := opening_overrun stands ready last ['{'] .mapStart
        rw [emit, yajlGenMapOpen, bind_ok (discard_ok run)]
        cases members with
        | nil =>
            rw [bind_ok (show emitMembers [] after = .ok ((), after) from rfl)]
            exact discard_error ((call_overrun top).2.2 _)
        | cons member members =>
            exact bind_error (bind_error (discard_error ((call_overrun top).1 _ _)))
      · obtain ⟨before, line, opened, run, -, -, stands⟩ :=
          @Stands.opening _ _ _ _ stands ['{'] .mapStart ready (by omega)
        rw [emit, yajlGenMapOpen, bind_ok (discard_ok run)]
        refine bind_error (emitMembers_deep members stands (.inl rfl) ?_)
        rw [List.length_append, List.length_singleton]
        omega
  | null => exact absurd deep (Nat.not_le.mpr here)
  | bool boolean => exact absurd deep (Nat.not_le.mpr here)
  | integer number => exact absurd deep (Nat.not_le.mpr here)
  | string str => exact absurd deep (Nat.not_le.mpr here)

theorem emitItems_deep (items : List Json) {g : Gen} {below : List GenState} {top : GenState}
    {printed : Str} (stands : Stands g below top printed)
    (inside : top = .arrayStart ∨ top = .inArray)
    (deep : yajlMaxDepth ≤ below.length + nestingItems items) :
    emitItems items g = .error overrun := by
  have here := stands.depth_lt
  have ready : Ready top := by rcases inside with rfl | rfl <;> rfl
  have appended : appendedAtom top = .inArray := by rcases inside with rfl | rfl <;> rfl
  cases items with
  | nil => exact absurd deep (Nat.not_le.mpr here)
  | cons item items =>
      rw [nestingItems] at deep
      by_cases first : yajlMaxDepth ≤ below.length + nesting item
      · exact bind_error (emit_deep item stands ready first)
      · obtain ⟨text, space, middle, run, -, -, stands⟩ := emit_stands item stands ready (by omega)
        rw [emitItems, bind_ok run]
        exact emitItems_deep items stands (.inr appended) (by omega)

theorem emitMembers_deep (members : List (Str × Json)) {g : Gen} {below : List GenState}
    {top : GenState} {printed : Str} (stands : Stands g below top printed)
    (inside : top = .mapStart ∨ top = .mapKey)
    (deep : yajlMaxDepth ≤ below.length + nestingMembers members) :
    emitMembers members g = .error overrun := by
  have here := stands.depth_lt
  have allowed : ensureValidState top = none := by rcases inside with rfl | rfl <;> rfl
  have appended : appendedAtom top = .mapVal := by rcases inside with rfl | rfl <;> rfl
  cases members with
  | nil => exact absurd deep (Nat.not_le.mpr here)
  | cons member members =>
      obtain ⟨key, value⟩ := member
      rw [nestingMembers] at deep
      obtain ⟨before, trail, inserted, atKey, keyRun, -, -, stands⟩ :=
        @Stands.atom _ _ _ _ stands true
          (fun g => '"' :: (yajlStringEncode g.escapeSolidus key ++ ['"']))
          (Option.or_eq_none_iff.mpr ⟨allowed, rfl⟩)
      rw [appended] at stands
      rw [emitMembers, yajlGenString, bind_ok (discard_ok keyRun)]
      by_cases first : yajlMaxDepth ≤ below.length + nesting value
      · exact bind_error (emit_deep value stands rfl first)
      · obtain ⟨text, space, middle, run, -, -, stands⟩ := emit_stands value stands rfl (by omega)
        rw [bind_ok run]
        exact emitMembers_deep members stands (.inr rfl) (by omega)

end

/-! ## Whole values -/

/-- What is printed for a value that is not nested too deep is read back when its strings are
UTF-8, with spaces before it as well. -/
theorem emit_reads (beautify escapeSolidus : Bool) {value : Json}
    (room : nesting value < yajlMaxDepth) :
    ∃ after, emit value (.alloc beautify escapeSolidus) = .ok ((), after) ∧
      (value.Utf8 → ∀ spaces, Spaces spaces →
        Json.read (spaces ++ after.printed) = some value) := by
  obtain ⟨text, trail, after, run, reads, spaces, stands⟩ :=
    emit_stands value (.alloc beautify escapeSolidus) rfl (by simpa using room)
  refine ⟨after, run, fun utf8 before beforeSpaces => ?_⟩
  rw [stands.printed]
  show Json.read (before ++ (text ++ trail)) = _
  rw [← List.append_assoc]
  exact read_of_reads ((reads utf8).spaces beforeSpaces) spaces

/-- **The text of a value is read back** as that value, with any flags, exactly when the value
is not nested too deep and its strings are UTF-8. A value that is nested too deep makes the
generator read past its levels. -/
theorem emit_reads_iff (beautify escapeSolidus : Bool) (value : Json) :
    ((∃ after, emit value (.alloc beautify escapeSolidus) = .ok ((), after) ∧
      Json.read after.printed = some value) ↔ nesting value < yajlMaxDepth ∧ value.Utf8) ∧
    (yajlMaxDepth ≤ nesting value →
      emit value (.alloc beautify escapeSolidus) = .error (.fault .outOfBounds)) := by
  have deep (long : yajlMaxDepth ≤ nesting value) :
      emit value (.alloc beautify escapeSolidus) = .error (.fault .outOfBounds) :=
    emit_deep value (.alloc beautify escapeSolidus) rfl (by simpa using long)
  refine ⟨⟨?_, ?_⟩, deep⟩
  · rintro ⟨after, run, read⟩
    refine ⟨?_, utf8_of_read read⟩
    by_contra long
    rw [deep (Nat.le_of_not_lt long)] at run
    cases run
  · rintro ⟨room, utf8⟩
    obtain ⟨after, run, reads⟩ := emit_reads beautify escapeSolidus room
    exact ⟨after, run, reads utf8 [] spaces_nil⟩

end HashArchive.Yajl
