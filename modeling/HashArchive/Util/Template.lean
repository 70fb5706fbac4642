import HashArchive.Foundations.Scanning
import HashArchive.Util.Hasher

/-!
# Templates

`TemplateCreate` cuts a text at its variables, `{{` name `}}`, into steps, and `TemplateWrite`
writes the steps, with what a callback writes for each variable in between.

`Compiled` says of a text and a list of steps what the loop of `TemplateCreate` does: a step
for each variable, the leftmost first, and one for the text after the last of them. The
array in which the loop puts the steps grows as it goes; with the steps in it, whatever is
left of it, the loop ends in `Compiled` (`templateCreateLoop_spec`). What is written is the
text with its variables replaced, `replaceVars`, which reads the text character by character
and knows nothing of steps.
-/

set_option autoImplicit false

namespace HashArchive.Templates

/-! ## The functions -/

theorem uvEnomem_neg : (-12 : ℤ) < 0 := of_decide_eq_true rfl

/-- `UV_ENOMEM`. -/
def uvEnomem : Rc := ⟨-12, uvEnomem_neg⟩

/-- `UV_EPIPE`. -/
def uvEpipe : ℤ := -32

/-- `UV_ENOENT`. -/
def uvEnoent : ℤ := -2

/-- `TemplateStep`. -/
structure TemplateStep where
  str : Str
  len : ℕ
  var : Option Str
deriving DecidableEq, Repr

/-- `struct Template`: the cells of the array, of which the first `count` are written. -/
structure Template where
  count : ℕ
  steps : List (Option TemplateStep)
deriving DecidableEq, Repr

/-- `[a-zA-Z0-9-]`. -/
def isVarChar (c : Char) : Bool := c.isAlphanum || c == '-'

/-- `\{\{[a-zA-Z0-9-]+\}\}`. -/
def varRegex : Regex :=
  .seq (.literal id ['{', '{']) (.seq (.repeated isVarChar 1 none) (.literal id ['}', '}']))

/-- A variable as it stands in a text. -/
def braced (name : Str) : Str := ['{', '{'] ++ (name ++ ['}', '}'])

/-- The name of a variable. -/
def IsVar (name : Str) : Prop := name ≠ [] ∧ ∀ c ∈ name, isVarChar c = true

/-- A text begins with a variable. -/
def VarAt (text : Str) : Prop := ∃ name rest, IsVar name ∧ text = braced name ++ rest

theorem length_braced (name : Str) : (braced name).length = name.length + 4 := by
  rw [braced, List.length_append, List.length_append]
  show 2 + (name.length + 2) = _
  omega

/-! ## Finding a variable -/

theorem mem_parses_varRegex {input : Str} {found : RegMatch} :
    found ∈ varRegex.parses input ↔
      ∃ name rest, IsVar name ∧ input = braced name ++ rest ∧ found = ⟨braced name, rest, []⟩ := by
  simp only [varRegex, Regex.mem_parses_seq, Regex.mem_parses_literal, Regex.mem_parses_repeated,
    List.map_id]
  constructor
  · rintro ⟨_, ⟨_, _, rfl, rfl, rfl⟩, _, ⟨_, ⟨name, _, rfl, inside, some, -, rfl⟩, _,
      ⟨_, rest, rfl, rfl, rfl⟩, rfl⟩, rfl⟩
    exact ⟨name, rest, ⟨List.ne_nil_of_length_pos some, inside⟩, by simp [braced], rfl⟩
  · rintro ⟨name, rest, ⟨some, inside⟩, rfl, rfl⟩
    exact ⟨_, ⟨_, _, by rw [braced, List.append_assoc], rfl, rfl⟩, _,
      ⟨_, ⟨name, _, List.append_assoc _ _ _, inside, List.length_pos_of_ne_nil some, by simp, rfl⟩, _,
        ⟨_, rest, rfl, rfl, rfl⟩, rfl⟩, rfl⟩

/-- What is found is a variable. -/
theorem of_regexec_varRegex {input : Str} {found : RegMatch}
    (answer : regexec varRegex input = some found) :
    ∃ name rest, IsVar name ∧ input = braced name ++ rest ∧ found.text = braced name := by
  obtain ⟨name, rest, var, split, rfl⟩ := mem_parses_varRegex.mp (regexec_eq_some answer).1
  exact ⟨name, rest, var, split, rfl⟩

theorem regexec_varRegex_eq_none_iff {input : Str} :
    regexec varRegex input = none ↔ ¬ VarAt input := by
  rw [regexec_eq_none_iff, List.eq_nil_iff_forall_not_mem]
  constructor
  · rintro noWay ⟨name, rest, var, split⟩
    exact noWay _ (mem_parses_varRegex.mpr ⟨name, rest, var, split, rfl⟩)
  · intro noVar found way
    obtain ⟨name, rest, var, split, -⟩ := mem_parses_varRegex.mp way
    exact noVar ⟨name, rest, var, split⟩

/-- **The leftmost variable** of a text. -/
theorem of_regsearch_varRegex {text : Str} {loc : ℕ} {found : RegMatch}
    (answer : regsearch varRegex text = some (loc, found)) :
    ∃ before name rest, IsVar name ∧ text = before ++ (braced name ++ rest) ∧
      loc = before.length ∧ found.text = braced name ∧
      ∀ i < before.length, ¬ VarAt (text.drop i) := by
  obtain ⟨within, here, earlier⟩ := regsearch_eq_some answer
  obtain ⟨name, rest, var, split, same⟩ := of_regexec_varRegex here
  have count : (text.take loc).length = loc := by
    rw [List.length_take]
    omega
  refine ⟨text.take loc, name, rest, var, ?_, count.symm, same, fun i before => ?_⟩
  · rw [← split, List.take_append_drop]
  · exact regexec_varRegex_eq_none_iff.mp (earlier i (by omega))

/-- After the variable less is left. -/
theorem length_drop_lt {text : Str} {loc : ℕ} {found : RegMatch}
    (answer : regsearch varRegex text = some (loc, found)) :
    (text.drop (loc + found.text.length)).length < text.length := by
  obtain ⟨before, name, rest, -, rfl, rfl, same, -⟩ := of_regsearch_varRegex answer
  rw [same, List.length_drop]
  simp only [List.length_append, length_braced]
  omega

/-! ## Creating a template -/

/-- The array is made larger when it is full. The memory says which sizes can be allocated. -/
def templateGrow (memory : ℕ → Bool) (t : Template) : Call Template :=
  if t.count ≥ t.steps.length then
    let size := max 10 (t.steps.length * 2)
    if memory size then
      .ok { t with steps := t.steps ++ List.replicate (size - t.steps.length) none }
    else .error uvEnomem
  else .ok t

/-- The loop of `TemplateCreate` from `pos` on. -/
def templateCreateLoop (memory : ℕ → Bool) (pos : Str) (t : Template) : Result (Call Template) :=
  match templateGrow memory t with
  | .error rc => .ok (.error rc)
  | .ok t =>
    match _answer : regsearch varRegex pos with
    | some (loc, found) => do
      let len := found.text.length
      let steps ← writeCell t.steps t.count
        (some ⟨pos.take loc, loc, some ((pos.drop (loc + 2)).take (len - 4))⟩)
      templateCreateLoop memory (pos.drop (loc + len)) ⟨t.count + 1, steps⟩
    | none => do
      let steps ← writeCell t.steps t.count (some ⟨pos, pos.length, none⟩)
      .ok (.ok ⟨t.count + 1, steps⟩)
termination_by pos.length
decreasing_by exact length_drop_lt _answer

/-- `TemplateCreate`. The memory is asked for a template and then for arrays of steps. -/
def templateCreate (memory : ℕ → Bool) (str : Str) : Result (Call Template) :=
  if memory 0 then templateCreateLoop memory str ⟨0, []⟩ else .ok (.error uvEnomem)

/-! ## Writing a template -/

section Write

variable {World : Type}

/-- `TemplateWriteFn`. -/
abbrev TemplateWriteFn (World : Type) : Type := Str → World → ℤ × World

/-- `TemplateVarFn`: it is given the name of a variable and a function to write with. -/
abbrev TemplateVarFn (World : Type) : Type :=
  Str → TemplateWriteFn World → World → ℤ × World

/-- What `TemplateWrite` does with a return code; `abort()` ends the program as a failed
assertion does. -/
def checkWritten (rc : ℤ) : Result ℤ :=
  let rc := if rc = uvEpipe then 0 else rc
  if rc < 0 then .error (.fault .assertion) else .ok rc

/-- A round of the loop of `TemplateWrite`. -/
def templateWriteStep (var : Option (TemplateVarFn World)) (wr : TemplateWriteFn World)
    (state : ℤ × World) (cell : Option TemplateStep) : Result (ℤ × World) :=
  match cell with
  | none => .error (.fault .outOfBounds)
  | some s => do
    let buf ← readCells s.str 0 s.len
    let (rc, world) := wr buf state.2
    let _ ← checkWritten rc
    let (rc, world) := match s.var, var with
      | some name, some var => var name wr world
      | _, _ => (0, world)
    let rc ← checkWritten rc
    .ok (rc, world)

/-- `TemplateStaticVar`. -/
def templateStaticVar (args : List (Str × Option Str)) : TemplateVarFn World :=
  fun var wr world =>
    match args with
    | [] => (uvEnoent, world)
    | (name, val) :: args =>
      if name ≠ var then templateStaticVar args var wr world
      else
        match val with
        | none => (0, world)
        | some val => wr val world

/-- `TemplateWrite`. -/
def templateWrite (t : Option Template) (var : Option (TemplateVarFn World))
    (wr : TemplateWriteFn World) (world : World) : Result (ℤ × World) :=
  match t with
  | none => .ok (0, world)
  | some t => do
    let cells ← readCells t.steps 0 t.count
    cells.foldlM (templateWriteStep var wr) (0, world)

end Write

/-! ## The steps of a text -/

/-- **A text is cut into steps**: the leftmost variable ends the first of them. -/
inductive Compiled : Str → List TemplateStep → Prop
  | last {text : Str} (noVar : ∀ i, ¬ VarAt (text.drop i)) :
      Compiled text [⟨text, text.length, none⟩]
  | var {before name rest : Str} {steps : List TemplateStep} (var : IsVar name)
      (first : ∀ i < before.length, ¬ VarAt ((before ++ (braced name ++ rest)).drop i))
      (others : Compiled rest steps) :
      Compiled (before ++ (braced name ++ rest)) (⟨before, before.length, some name⟩ :: steps)

/-- The cells of an array that has some more room. -/
def cells (written : List TemplateStep) (free : ℕ) : List (Option TemplateStep) :=
  written.map some ++ List.replicate free none

theorem length_cells (written : List TemplateStep) (free : ℕ) :
    (cells written free).length = written.length + free := by
  rw [cells, List.length_append, List.length_map, List.length_replicate]

/-- The next cell is written. -/
theorem writeCell_cells (written : List TemplateStep) (free : ℕ) (step : TemplateStep) :
    writeCell (cells written (free + 1)) written.length (some step) =
      .ok (cells (written ++ [step]) free) := by
  rw [cells, List.replicate_succ, writeCell_append_cons _ _ _ _ (List.length_map ..).symm, cells,
    List.map_append, List.append_assoc]
  rfl

/-- **There is room for a step**, or no memory for it. -/
theorem templateGrow_cells (memory : ℕ → Bool) (written : List TemplateStep) (free : ℕ) :
    (∃ more, templateGrow memory ⟨written.length, cells written free⟩ =
      .ok ⟨written.length, cells written (more + 1)⟩) ∨
    (templateGrow memory ⟨written.length, cells written free⟩ = .error uvEnomem ∧
      ∃ size, memory size = false) := by
  unfold templateGrow
  simp only [length_cells]
  split_ifs with full allocated
  · have none : free = 0 := by omega
    subst none
    refine .inl ⟨max 10 (written.length * 2) - written.length - 1, ?_⟩
    have size : max 10 (written.length * 2) - written.length - 1 + 1 =
        max 10 ((written.length + 0) * 2) - (written.length + 0) := by omega
    rw [size, cells, cells, List.replicate_zero, List.append_nil]
  · exact .inr ⟨rfl, _, Bool.eq_false_iff.mpr allocated⟩
  · exact .inl ⟨free - 1, by rw [Nat.sub_add_cancel (by omega)]⟩

/-- The text of a variable and what is between the braces. -/
theorem take_drop_braced (before name rest : Str) :
    ((before ++ (braced name ++ rest)).drop (before.length + 2)).take ((braced name).length - 4) =
      name := by
  rw [← List.drop_drop, List.drop_left, length_braced, Nat.add_sub_cancel]
  show (name ++ ['}', '}'] ++ rest).take name.length = name
  rw [List.append_assoc, List.take_left]

/-- **What the loop ends in**: after the steps that are there the steps of the rest of the
text, or no memory. -/
theorem templateCreateLoop_spec (memory : ℕ → Bool) (pos : Str) (written : List TemplateStep)
    (free : ℕ) :
    (∃ steps more, Compiled pos steps ∧
      templateCreateLoop memory pos ⟨written.length, cells written free⟩ =
        .ok (.ok ⟨(written ++ steps).length, cells (written ++ steps) more⟩)) ∨
    (templateCreateLoop memory pos ⟨written.length, cells written free⟩ = .ok (.error uvEnomem) ∧
      ∃ size, memory size = false) := by
  induction length : pos.length using Nat.strong_induction_on generalizing pos written free with
  | _ total ih =>
      subst total
      rw [templateCreateLoop]
      rcases templateGrow_cells memory written free with ⟨more, grown⟩ | ⟨failed, noMemory⟩
      · rw [grown]
        simp only
        split
        · rename_i loc found answer
          obtain ⟨before, name, rest, var, rfl, rfl, same, first⟩ := of_regsearch_varRegex answer
          have left : (before ++ (braced name ++ rest)).drop (before.length + (braced name).length) =
              rest := by
            rw [← List.append_assoc, ← List.length_append, List.drop_left]
          have shorter := length_drop_lt answer
          rw [same, left] at shorter
          simp only [same, List.take_left, take_drop_braced, writeCell_cells, Result.ok_bind, left]
          rcases ih _ shorter rest (written ++ [⟨before, before.length, some name⟩]) more rfl with
            ⟨steps, more, compiled, done⟩ | failed
          · refine .inl ⟨_, more, .var var first compiled, ?_⟩
            rw [List.length_append, List.length_singleton] at done
            rw [done, List.append_assoc, List.singleton_append]
          · rw [List.length_append, List.length_singleton] at failed
            exact .inr failed
        · rename_i answer
          rw [writeCell_cells, Result.ok_bind]
          refine .inl ⟨_, more, .last fun i => ?_, ?_⟩
          · exact regexec_varRegex_eq_none_iff.mp (regsearch_eq_none answer i)
          · rw [List.length_append, List.length_singleton]
      · rw [failed]
        exact .inr ⟨rfl, noMemory⟩

/-- The text of a step. -/
def TemplateStep.text (step : TemplateStep) : Str :=
  step.str ++ match step.var with
    | some name => braced name
    | none => []

/-- Somewhere in a text is a variable. -/
def HasVar (text : Str) : Prop :=
  ∃ before name after, IsVar name ∧ text = before ++ (braced name ++ after)

theorem hasVar_iff {text : Str} : HasVar text ↔ ∃ i, VarAt (text.drop i) := by
  constructor
  · rintro ⟨before, name, after, var, rfl⟩
    exact ⟨before.length, name, after, var, List.drop_left⟩
  · rintro ⟨i, name, after, var, split⟩
    exact ⟨text.take i, name, after, var, by rw [← split, List.take_append_drop]⟩

/-- A variable of the text before is one of the whole text. -/
theorem not_hasVar_of_first {before rest : Str}
    (first : ∀ i < before.length, ¬ VarAt ((before ++ rest).drop i)) : ¬ HasVar before := by
  rintro ⟨front, name, after, var, rfl⟩
  refine first front.length ?_ ⟨name, after ++ rest, var, ?_⟩
  · simp only [List.length_append, length_braced]
    omega
  · rw [List.append_assoc, List.drop_left, List.append_assoc]

/-- **Nothing of the text is lost**, and no variable is missed. -/
structure Faithful (text : Str) (steps : List TemplateStep) : Prop where
  whole : steps.flatMap TemplateStep.text = text
  len : ∀ step ∈ steps, step.len = step.str.length
  vars : ∀ step ∈ steps, ∀ name, step.var = some name → IsVar name
  noVars : ∀ step ∈ steps, ¬ HasVar step.str
  last : ∃ front final, steps = front ++ [final] ∧ final.var = none ∧
    ∀ step ∈ front, step.var ≠ none

theorem Compiled.faithful {text : Str} {steps : List TemplateStep}
    (compiled : Compiled text steps) : Faithful text steps := by
  induction compiled with
  | @last text noVar =>
      have each {property : TemplateStep → Prop} (holds : property ⟨text, text.length, none⟩) :
          ∀ step ∈ [(⟨text, text.length, none⟩ : TemplateStep)], property step := by
        simpa using holds
      exact {
        whole := by simp [TemplateStep.text]
        len := each rfl
        vars := each (by simp)
        noVars := each (by simpa only [hasVar_iff, not_exists] using noVar)
        last := ⟨[], _, rfl, rfl, by simp⟩ }
  | @var before name rest steps var first _ ih =>
      obtain ⟨front, final, split, isNone, others⟩ := ih.last
      exact {
        whole := by
          rw [List.flatMap_cons, ih.whole, TemplateStep.text, List.append_assoc]
        len := List.forall_mem_cons.mpr ⟨rfl, ih.len⟩
        vars := List.forall_mem_cons.mpr ⟨fun _ same => Option.some.inj same ▸ var, ih.vars⟩
        noVars := List.forall_mem_cons.mpr ⟨not_hasVar_of_first first, ih.noVars⟩
        last := ⟨_ :: front, final, by rw [split, List.cons_append], isNone,
          List.forall_mem_cons.mpr ⟨Option.some_ne_none _, others⟩⟩ }

/-! ## The text with its variables replaced -/

section Replace

variable {Args : Type}

/-- The variable with which a text begins, and what follows it. -/
def readVar : Str → Option (Str × Str)
  | '{' :: '{' :: text =>
    match text.dropWhile isVarChar with
    | '}' :: '}' :: rest =>
      if text.takeWhile isVarChar = [] then none else some (text.takeWhile isVarChar, rest)
    | _ => none
  | _ => none

theorem readVar_braced {name : Str} (var : IsVar name) (rest : Str) :
    readVar (braced name ++ rest) = some (name, rest) := by
  have stops : ∀ c ∈ ('}' :: '}' :: rest).head?, isVarChar c = false := by
    rintro c ⟨⟩
    decide
  have split : braced name ++ rest = '{' :: '{' :: (name ++ '}' :: '}' :: rest) := by
    simp [braced]
  rw [split, readVar, takeWhile_of_stop var.2 stops, dropWhile_of_stop var.2 stops]
  exact if_neg var.1

theorem of_readVar {text name rest : Str} (read : readVar text = some (name, rest)) :
    IsVar name ∧ text = braced name ++ rest := by
  unfold readVar at read
  split at read
  · rename_i text
    split at read
    · rename_i closed
      split_ifs at read with empty
      cases read
      refine ⟨⟨empty, fun c => List.mem_takeWhile_imp⟩, ?_⟩
      have whole := List.takeWhile_append_dropWhile (p := isVarChar) (l := text)
      rw [closed] at whole
      conv_lhs => rw [← whole]
      simp [braced]
    · cases read
  · cases read

theorem varAt_iff {text : Str} : (readVar text).isSome = true ↔ VarAt text := by
  constructor
  · intro read
    obtain ⟨⟨name, rest⟩, read⟩ := Option.isSome_iff_exists.mp read
    exact ⟨name, rest, of_readVar read⟩
  · rintro ⟨name, rest, var, rfl⟩
    rw [readVar_braced var]
    rfl

instance (text : Str) : Decidable (VarAt text) := decidable_of_iff _ varAt_iff

/-- **The text with its variables replaced**, from left to right. A value is computed from
the name of the variable and what the computation of the values before has left. -/
def replaceVars (value : Str → Args → Str × Args) (text : Str) (args : Args) : Str × Args :=
  match _read : readVar text with
  | some (name, rest) =>
    let (written, args) := value name args
    let (others, args) := replaceVars value rest args
    (written ++ others, args)
  | none =>
    match text with
    | [] => ([], args)
    | c :: text =>
      let (others, args) := replaceVars value text args
      (c :: others, args)
termination_by text.length
decreasing_by
  · have split := (of_readVar _read).2
    rw [split, List.length_append, length_braced]
    omega
  · exact Nat.lt_succ_self _

variable (value : Str → Args → Str × Args) (args : Args)

theorem replaceVars_braced {name : Str} (var : IsVar name) (rest : Str) :
    replaceVars value (braced name ++ rest) args =
      ((value name args).1 ++ (replaceVars value rest (value name args).2).1,
        (replaceVars value rest (value name args).2).2) := by
  rw [replaceVars]
  split
  · rename_i read
    rw [readVar_braced var] at read
    cases read
    rfl
  · rename_i read
    rw [readVar_braced var] at read
    cases read

theorem replaceVars_cons {c : Char} {text : Str} (noVar : ¬ VarAt (c :: text)) :
    replaceVars value (c :: text) args =
      (c :: (replaceVars value text args).1, (replaceVars value text args).2) := by
  rw [replaceVars]
  split
  · rename_i read
    exact absurd ⟨_, _, of_readVar read⟩ noVar
  · rfl

/-- Before the first variable the text stays as it is. -/
theorem replaceVars_append {before rest : Str}
    (first : ∀ i < before.length, ¬ VarAt ((before ++ rest).drop i)) :
    replaceVars value (before ++ rest) args =
      (before ++ (replaceVars value rest args).1, (replaceVars value rest args).2) := by
  induction before with
  | nil => rfl
  | cons c before ih =>
      have later : ∀ i < before.length, ¬ VarAt ((before ++ rest).drop i) := fun i less =>
        first (i + 1) (Nat.succ_lt_succ less)
      have here : ¬ VarAt (c :: (before ++ rest)) := first 0 (Nat.zero_lt_succ _)
      rw [List.cons_append, replaceVars_cons _ _ here, ih later]
      rfl

theorem replaceVars_nil : replaceVars value [] args = ([], args) := by
  rw [replaceVars]
  rfl

theorem replaceVars_of_noVar {text : Str} (noVar : ∀ i, ¬ VarAt (text.drop i)) :
    replaceVars value text args = (text, args) := by
  have whole := @replaceVars_append _ value args text [] fun i _ => by
    rw [List.append_nil]
    exact noVar i
  rwa [List.append_nil, replaceVars_nil, List.append_nil] at whole

/-! ## What is written -/

variable {value args} {wr : TemplateWriteFn (Str × Args)} {var : TemplateVarFn (Str × Args)}

/-- What is written is added to the output. -/
def Appends (wr : TemplateWriteFn (Str × Args)) : Prop :=
  ∀ buf output args, ∃ rc, 0 ≤ rc ∧ wr buf (output, args) = (rc, output ++ buf, args)

/-- A callback succeeds for some variables: it writes the value of each. -/
def Succeeds (var : TemplateVarFn (Str × Args)) (wr : TemplateWriteFn (Str × Args))
    (value : Str → Args → Str × Args) (names : List Str) : Prop :=
  ∀ name ∈ names, ∀ output args, ∃ rc, 0 ≤ rc ∧
    var name wr (output, args) = (rc, output ++ (value name args).1, (value name args).2)

theorem checkWritten_of_nonneg {rc : ℤ} (succeeded : 0 ≤ rc) : checkWritten rc = .ok rc := by
  unfold checkWritten uvEpipe
  rw [if_neg (by omega), if_neg (by omega)]

theorem readCells_all {α : Type} (text : List α) : readCells text 0 text.length = .ok text :=
  readCells_eq_ok.mpr ⟨(Nat.zero_add _).le, by rw [List.drop_zero, List.take_length]⟩

/-- A step without a variable. -/
theorem templateWriteStep_last (appends : Appends wr) (text output : Str) (rc : ℤ) :
    templateWriteStep (some var) wr (rc, output, args) (some ⟨text, text.length, none⟩) =
      .ok (0, output ++ text, args) := by
  obtain ⟨written, succeeded, wrote⟩ := appends text output args
  simp only [templateWriteStep, readCells_all, Result.ok_bind, wrote,
    checkWritten_of_nonneg succeeded, checkWritten_of_nonneg (Int.le_refl 0)]

/-- A step with a variable. -/
theorem templateWriteStep_var (appends : Appends wr) {names : List Str}
    (succeeds : Succeeds var wr value names) {name : Str} (member : name ∈ names)
    (before output : Str) (rc : ℤ) :
    ∃ rc', templateWriteStep (some var) wr (rc, output, args)
        (some ⟨before, before.length, some name⟩) =
      .ok (rc', output ++ before ++ (value name args).1, (value name args).2) := by
  obtain ⟨written, succeeded, wrote⟩ := appends before output args
  obtain ⟨rc', valued, wroteValue⟩ := succeeds name member (output ++ before) args
  refine ⟨rc', ?_⟩
  simp only [templateWriteStep, readCells_all, Result.ok_bind, wrote,
    checkWritten_of_nonneg succeeded, wroteValue, checkWritten_of_nonneg valued]

/-- **The steps of a text write the text** with its variables replaced. -/
theorem Compiled.foldlM_write {text : Str} {steps : List TemplateStep}
    (compiled : Compiled text steps) (appends : Appends wr)
    (succeeds : Succeeds var wr value (steps.filterMap TemplateStep.var))
    (rc : ℤ) (output : Str) (args : Args) :
    (steps.map some).foldlM (templateWriteStep (some var) wr) (rc, output, args) =
      .ok (0, output ++ (replaceVars value text args).1, (replaceVars value text args).2) := by
  induction compiled generalizing rc output args with
  | last noVar =>
      rw [replaceVars_of_noVar value args noVar, List.map_singleton, List.foldlM_cons,
        templateWriteStep_last appends]
      rfl
  | @var before name rest steps var first _ ih =>
      have names : (⟨before, before.length, some name⟩ :: steps).filterMap TemplateStep.var =
          name :: steps.filterMap TemplateStep.var := rfl
      rw [names] at succeeds
      obtain ⟨rc', done⟩ := @templateWriteStep_var _ value args wr _ appends _ succeeds _
        List.mem_cons_self before output rc
      rw [List.map_cons, List.foldlM_cons, done, Result.ok_bind,
        ih fun other member => succeeds other (List.mem_cons_of_mem _ member),
        replaceVars_append value args first, replaceVars_braced value args var]
      simp only [List.append_assoc]

end Replace

/-! ## Templates -/

theorem readCells_cells (steps : List TemplateStep) (free : ℕ) :
    readCells (cells steps free) 0 steps.length = .ok (steps.map some) := by
  refine readCells_eq_ok.mpr ⟨?_, ?_⟩
  · rw [length_cells]
    omega
  · rw [cells, List.drop_zero, ← List.length_map some, List.take_left]

/-- **A template is created**, or there is no memory for it. -/
theorem templateCreate_cases (memory : ℕ → Bool) (text : Str) :
    (∃ steps more, Compiled text steps ∧
      templateCreate memory text = .ok (.ok ⟨steps.length, cells steps more⟩)) ∨
    (templateCreate memory text = .ok (.error uvEnomem) ∧ ∃ size, memory size = false) := by
  unfold templateCreate
  split_ifs with allocated
  · exact templateCreateLoop_spec memory text [] 0
  · exact .inr ⟨rfl, 0, Bool.eq_false_iff.mpr allocated⟩

/-- **A template is its text**: the steps make up the text, every variable of it is a step,
and what is written is the text with the variables replaced. -/
theorem templateCreate_faithful (memory : ℕ → Bool) (text : Str) :
    (∀ fault, templateCreate memory text ≠ .error fault) ∧
    ((∀ size, memory size = true) →
      ∃ template, templateCreate memory text = .ok (.ok template)) ∧
    ∀ template, templateCreate memory text = .ok (.ok template) →
      ∃ steps : List TemplateStep,
        readCells template.steps 0 template.count = .ok (steps.map some) ∧
        Faithful text steps ∧
        ∀ (Args : Type) (var : TemplateVarFn (Str × Args)) (wr : TemplateWriteFn (Str × Args))
          (value : Str → Args → Str × Args), Appends wr →
          Succeeds var wr value (steps.filterMap TemplateStep.var) →
          ∀ output args, templateWrite (some template) (some var) wr (output, args) =
            .ok (0, output ++ (replaceVars value text args).1,
              (replaceVars value text args).2) := by
  rcases templateCreate_cases memory text with ⟨steps, more, compiled, done⟩ | ⟨failed, noMemory⟩
  · rw [done]
    refine ⟨fun fault other => ?_, fun _ => ⟨_, rfl⟩, ?_⟩
    · cases other
    intro template same
    cases same
    refine ⟨steps, readCells_cells steps more, compiled.faithful, ?_⟩
    intro Args var wr value appends succeeds output args
    rw [templateWrite]
    simp only [readCells_cells, Result.ok_bind]
    exact compiled.foldlM_write appends succeeds 0 output args
  · rw [failed]
    refine ⟨fun fault other => ?_, ?_, ?_⟩
    · cases other
    · intro all
      obtain ⟨size, noMemory⟩ := noMemory
      rw [all] at noMemory
      cases noMemory
    · intro template same
      cases same

/-- A greeting. -/
def greeting : Str := "Hi \x7b\x7bname\x7d\x7d!".toList

theorem templateCreate_faithful_greeting :
    ∃ template steps, templateCreate (fun _ => true) greeting = .ok (.ok template) ∧
      Faithful greeting steps ∧
      templateWrite (some template) (some fun _ wr world => wr "you".toList world)
        (fun buf world => (0, world.1 ++ buf, ())) ([], ()) = .ok (0, "Hi you!".toList, ()) := by
  obtain ⟨-, exists', each⟩ := templateCreate_faithful (fun _ => true) greeting
  obtain ⟨template, created⟩ := exists' fun _ => rfl
  obtain ⟨steps, -, faithful, writes⟩ := each template created
  refine ⟨template, steps, created, faithful, ?_⟩
  have replaced : replaceVars (fun _ _ => ("you".toList, ())) greeting () =
      ("Hi you!".toList, ()) := by
    show replaceVars _ ('H' :: 'i' :: ' ' :: (braced "name".toList ++ ['!'])) () = _
    rw [replaceVars_cons _ _ (by decide), replaceVars_cons _ _ (by decide),
      replaceVars_cons _ _ (by decide), replaceVars_braced _ _ ⟨by decide, List.all_eq_true.mp rfl⟩,
      replaceVars_cons _ _ (by decide), replaceVars_nil]
    rfl
  rw [writes Unit _ _ (fun _ _ => ("you".toList, ())) (fun buf output _ => ⟨0, le_refl _, rfl⟩)
    (fun name _ output _ => ⟨0, le_refl _, rfl⟩), replaced]
  rfl

/-! ## Variables from a table -/

section Table

variable {Args : Type} {table : List (Str × Option Str)} {wr : TemplateWriteFn (Str × Args)}

/-- The value of a variable in a table; a variable without a value has the empty one. -/
def tableValue (table : List (Str × Option Str)) (name : Str) (args : Args) : Str × Args :=
  (((table.lookup name).join).getD [], args)

/-- **A table succeeds** for the variables it has. -/
theorem succeeds_templateStaticVar (appends : Appends wr) {names : List Str}
    (known : ∀ name ∈ names, name ∈ table.map Prod.fst) :
    Succeeds (templateStaticVar table) wr (tableValue table) names := by
  intro name member output args
  have found := known name member
  clear known
  induction table with
  | nil => cases found
  | cons entry table ih =>
      obtain ⟨key, val⟩ := entry
      simp only [templateStaticVar]
      by_cases same : key = name
      · subst same
        rw [if_neg (not_not.mpr rfl)]
        cases val with
        | none => exact ⟨0, Int.le_refl 0, by simp [tableValue]⟩
        | some val =>
            obtain ⟨rc, succeeded, wrote⟩ := appends val output args
            exact ⟨rc, succeeded, by simp [wrote, tableValue]⟩
      · rw [if_pos same]
        have later : name ∈ table.map Prod.fst :=
          (List.mem_cons.mp found).resolve_left (Ne.symm same)
        obtain ⟨rc, succeeded, wrote⟩ := ih later
        have other : tableValue ((key, val) :: table) name args = tableValue table name args := by
          simp [tableValue, List.lookup_cons, beq_eq_false_iff_ne.mpr (Ne.symm same)]
        rw [other]
        exact ⟨rc, succeeded, wrote⟩

end Table

end HashArchive.Templates
