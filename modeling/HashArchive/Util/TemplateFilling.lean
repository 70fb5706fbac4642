import HashArchive.Foundations.Markup
import HashArchive.Util.Template

/-!
# Filled templates

A page is written through `TemplateWrite` with a callback that runs the functions of the page
parts. What it gives for a variable is a text and, when one of these functions leaves its defined
behaviour, a fault (`Value`). `write_template` says what is on a page after a template was written:
the text of the template with the texts of the values in it.

A template that is filled with other values has the same tags when each value has the tags of the
one in its place (`alike_fillVars`). Where a value stands is found in the text alone (`findHoles`),
as long as no value ends in another position than that in which it begins.
-/

set_option autoImplicit false

namespace HashArchive.Templates

open Markup

/-! ## Filling -/

/-- The text with its variables replaced by fixed texts. -/
def fillVars (value : Str → Str) (text : Str) : Str :=
  (replaceVars (fun name (_ : Unit) => (value name, ())) text ()).1

section Fill

variable (value : Str → Str)

theorem fillVars_nil : fillVars value [] = [] := by
  rw [fillVars, replaceVars_nil]

theorem fillVars_braced {name : Str} (var : IsVar name) (rest : Str) :
    fillVars value (braced name ++ rest) = value name ++ fillVars value rest := by
  rw [fillVars, replaceVars_braced _ _ var]
  rfl

theorem fillVars_cons {c : Char} {text : Str} (noVar : ¬ VarAt (c :: text)) :
    fillVars value (c :: text) = c :: fillVars value text := by
  rw [fillVars, replaceVars_cons _ _ noVar]
  rfl

end Fill

/-! ## Holes -/

/-- The variables of a text, where a reader is at each of them who passes over the others, and
where at the end. -/
inductive Holes : Position → Str → List (Position × Str) → Position → Prop
  | nil {position : Position} : Holes position [] [] position
  | var {position last : Position} {name rest : Str} {found : List (Position × Str)}
      (var : IsVar name) (others : Holes position rest found last) :
      Holes position (braced name ++ rest) ((position, name) :: found) last
  | char {position last : Position} {c : Char} {text : Str} {found : List (Position × Str)}
      (noVar : ¬ VarAt (c :: text)) (others : Holes (position.next c) text found last) :
      Holes position (c :: text) found last

/-- Searching the holes of a text. -/
def findHoles : ℕ → Position → Str → Option (List (Position × Str) × Position)
  | 0, _, _ => none
  | fuel + 1, position, text =>
    match readVar text, text with
    | some (name, rest), _ =>
      (findHoles fuel position rest).map fun found => ((position, name) :: found.1, found.2)
    | none, [] => some ([], position)
    | none, c :: text => findHoles fuel (position.next c) text

section Holes

variable {value other : Str → Str} {position last : Position} {text : Str}
  {found : List (Position × Str)}

theorem holes_of_findHoles {fuel : ℕ}
    (searched : findHoles fuel position text = some (found, last)) :
    Holes position text found last := by
  induction fuel generalizing position text found with
  | zero => cases searched
  | succ fuel ih =>
      unfold findHoles at searched
      split at searched
      · rename_i name rest read
        obtain ⟨var, rfl⟩ := of_readVar read
        obtain ⟨⟨others, final⟩, inRest, same⟩ := Option.map_eq_some_iff.mp searched
        cases same
        exact .var var (ih inRest)
      · cases searched
        exact .nil
      · rename_i c text read
        refine .char (fun var => ?_) (ih searched)
        rw [← varAt_iff, read] at var
        cases var

/-- Each value ends in the position in which it begins. -/
def Steady (value : Str → Str) (found : List (Position × Str)) : Prop :=
  ∀ hole ∈ found, hole.1.after (value hole.2) = hole.1

/-- Each value has the tags of another one. -/
def AlikeAt (value other : Str → Str) (found : List (Position × Str)) : Prop :=
  ∀ hole ∈ found, Alike hole.1 (value hole.2) (other hole.2)

/-- Where a reader is after a filled template. -/
theorem after_fillVars (holes : Holes position text found last) (steady : Steady value found) :
    position.after (fillVars value text) = last := by
  induction holes with
  | nil =>
      rw [fillVars_nil]
      rfl
  | var var _ ih =>
      obtain ⟨here, steady⟩ := List.forall_mem_cons.mp steady
      rw [fillVars_braced _ var, Position.after_append, here]
      exact ih steady
  | char noVar _ ih =>
      rw [fillVars_cons _ noVar]
      exact ih steady

/-- **Alike values make alike pages.** -/
theorem alike_fillVars (holes : Holes position text found last) (steady : Steady value found)
    (alike : AlikeAt value other found) :
    Alike position (fillVars value text) (fillVars other text) := by
  induction holes with
  | nil =>
      rw [fillVars_nil, fillVars_nil]
      exact Alike.refl _ []
  | var var _ ih =>
      obtain ⟨here, later⟩ := List.forall_mem_cons.mp alike
      obtain ⟨steadyHere, steady⟩ := List.forall_mem_cons.mp steady
      rw [fillVars_braced value var, fillVars_braced other var]
      exact here.append (steadyHere.symm ▸ ih steady later)
  | char noVar _ ih =>
      rw [fillVars_cons value noVar, fillVars_cons other noVar]
      exact (Alike.refl _ [_]).append (ih steady alike)

/-- The values of other variables do not count. -/
theorem fillVars_congr (holes : Holes position text found last)
    (same : ∀ hole ∈ found, value hole.2 = other hole.2) :
    fillVars value text = fillVars other text := by
  induction holes with
  | nil => rw [fillVars_nil, fillVars_nil]
  | var var _ ih =>
      obtain ⟨here, later⟩ := List.forall_mem_cons.mp same
      rw [fillVars_braced value var, fillVars_braced other var, here, ih later]
  | char noVar _ ih => rw [fillVars_cons value noVar, fillVars_cons other noVar, ih same]

theorem VarAt.append (var : VarAt text) (rest : Str) : VarAt (text ++ rest) := by
  obtain ⟨name, tail, isVar, rfl⟩ := var
  exact ⟨name, tail ++ rest, isVar, List.append_assoc _ _ _⟩

/-- **A text is split at a variable**, and filled on both sides of it. -/
theorem Holes.split {place : Position} {name : Str} {before after : List (Position × Str)}
    (holes : Holes position text (before ++ (place, name) :: after) last) :
    ∃ first rest, Holes position first before place ∧ Holes place rest after last ∧
      text = first ++ (braced name ++ rest) ∧ ∀ value,
        fillVars value text = fillVars value first ++ (value name ++ fillVars value rest) := by
  generalize whole : before ++ (place, name) :: after = found at holes
  induction holes generalizing before with
  | nil => cases List.append_eq_nil_iff.mp whole |>.2
  | @var position last own rest found var others ih =>
      cases before with
      | nil =>
          cases whole
          exact ⟨[], rest, .nil, others, rfl, fun value => by
            rw [fillVars_braced value var, fillVars_nil, List.nil_append]⟩
      | cons hole before =>
          cases whole
          obtain ⟨first, rest, inFirst, inRest, rfl, filled⟩ := ih rfl
          refine ⟨braced own ++ first, rest, .var var inFirst, inRest, ?_, fun value => ?_⟩
          · rw [List.append_assoc]
          · rw [fillVars_braced value var, fillVars_braced value var, filled, List.append_assoc]
  | @char position last c text found noVar others ih =>
      obtain ⟨first, rest, inFirst, inRest, rfl, filled⟩ := ih whole
      have noVarFirst : ¬ VarAt (c :: first) := fun var => noVar (var.append _)
      refine ⟨c :: first, rest, .char noVarFirst inFirst, inRest, rfl, fun value => ?_⟩
      rw [fillVars_cons value noVar, fillVars_cons value noVarFirst, filled, List.cons_append]

/-- A variable does not go over the end of a line. -/
theorem varAt_of_append {rest : Str} (line : '\n' ∈ text) (var : VarAt (text ++ rest)) :
    VarAt text := by
  obtain ⟨name, tail, isVar, split⟩ := var
  rcases List.append_eq_append_iff.mp split with ⟨more, whole, -⟩ | ⟨more, rfl, -⟩
  · have inVar : '\n' ∈ braced name := whole ▸ List.mem_append_left _ line
    simp only [braced, List.mem_append] at inVar
    rcases inVar with opening | inName | closing
    · exact absurd opening (by decide)
    · exact absurd (isVar.2 _ inName) (by decide)
    · exact absurd closing (by decide)
  · exact ⟨name, more, isVar, rfl⟩

/-- **Two files one after the other**, of which the first ends a line. -/
theorem Holes.append {middle : Position} {rest : Str} {others : List (Position × Str)}
    (first : Holes position text found middle) (line : ∀ c ∈ text.getLast?, c = '\n')
    (second : Holes middle rest others last) :
    Holes position (text ++ rest) (found ++ others) last := by
  induction first with
  | nil => exact second
  | @var _ _ name text _ var _ ih =>
      rw [List.append_assoc]
      refine .var var (ih (fun c member => line c ?_) second)
      rw [List.getLast?_append, Option.mem_def.mp member]
      rfl
  | @char _ _ c text _ noVar _ ih =>
      have final : text.getLast?.getD c = '\n' := line _ (List.getLast?_cons ..)
      refine .char (fun var => noVar (varAt_of_append ?_ var)) (ih (fun d isLast => ?_) second)
      · rw [← final]
        exact List.mem_of_getLast? (List.getLast?_cons ..)
      · rwa [Option.mem_def.mp isLast] at final

theorem Holes.of_cons {c : Char} (holes : Holes position (c :: text) found last)
    (noVar : ¬ VarAt (c :: text)) : Holes (position.next c) text found last := by
  generalize whole : c :: text = cells at holes noVar
  cases holes with
  | nil => cases whole
  | var var _ => exact absurd ⟨_, _, var, rfl⟩ noVar
  | char _ others =>
      cases whole
      exact others

theorem Holes.of_append {before rest : Str} (holes : Holes position (before ++ rest) found last)
    (first : ∀ i < before.length, ¬ VarAt ((before ++ rest).drop i)) :
    Holes (position.after before) rest found last := by
  induction before generalizing position with
  | nil => exact holes
  | cons c before ih =>
      exact ih (holes.of_cons (first 0 (Nat.zero_lt_succ _)))
        fun i less => first (i + 1) (Nat.succ_lt_succ less)

theorem Holes.of_braced {name rest : Str} (holes : Holes position (braced name ++ rest) found last)
    (var : IsVar name) : ∃ others, found = (position, name) :: others ∧
      Holes position rest others last := by
  generalize whole : braced name ++ rest = cells at holes
  cases holes with
  | nil => cases whole
  | var otherVar others =>
      have read := readVar_braced var rest
      rw [whole, readVar_braced otherVar] at read
      cases read
      exact ⟨_, rfl, others⟩
  | char noVar _ => exact absurd ⟨name, rest, var, whole.symm⟩ noVar

theorem Holes.eq_nil_of_noVar (holes : Holes position text found last)
    (noVar : ∀ i, ¬ VarAt (text.drop i)) : found = [] := by
  induction holes with
  | nil => rfl
  | var var _ _ => exact absurd ⟨_, _, var, rfl⟩ (noVar 0)
  | char _ _ ih => exact ih fun i => noVar (i + 1)

/-- The variables of the steps are those of the holes. -/
theorem Compiled.vars_eq {steps : List TemplateStep} (compiled : Compiled text steps)
    (holes : Holes position text found last) :
    steps.filterMap TemplateStep.var = found.map Prod.snd := by
  induction compiled generalizing position found with
  | last noVar =>
      rw [holes.eq_nil_of_noVar noVar]
      rfl
  | var var first _ ih =>
      obtain ⟨others, rfl, inRest⟩ := (holes.of_append first).of_braced var
      exact congrArg _ (ih inRest)

end Holes

/-! ## Writing a filled template -/

/-- What a callback gives for a variable: a text, and the fault it has run into. -/
abbrev Value : Type := Str × Option Fault

/-- What was written to a client, and the fault that has ended it. -/
abbrev Page : Type := Str × Option Fault

/-- A value as `replaceVars` computes it; the first fault stays. -/
def faulty (value : Str → Value) (name : Str) (fault : Option Fault) : Str × Option Fault :=
  ((value name).1, fault.or (value name).2)

section Write

variable {value : Str → Value} {position last : Position} {text : Str}
  {found : List (Position × Str)}

/-- **The text of a template with faulty values**, and whether there was a fault. -/
theorem replaceVars_faulty (holes : Holes position text found last)
    (fault : Option Fault) :
    (replaceVars (faulty value) text fault).1 = fillVars (fun name => (value name).1) text ∧
      ((replaceVars (faulty value) text fault).2 = none ↔
        fault = none ∧ ∀ hole ∈ found, (value hole.2).2 = none) := by
  induction holes generalizing fault with
  | nil =>
      rw [replaceVars_nil, fillVars_nil]
      exact ⟨rfl, by simp⟩
  | @var _ _ name _ _ var _ ih =>
      obtain ⟨sameText, noFault⟩ := ih (fault.or (value name).2)
      rw [replaceVars_braced _ _ var, fillVars_braced _ var]
      refine ⟨congrArg ((value name).1 ++ ·) sameText, noFault.trans ?_⟩
      rw [Option.or_eq_none_iff, List.forall_mem_cons, and_assoc]
  | char noVar _ ih =>
      obtain ⟨sameText, noFault⟩ := ih fault
      rw [replaceVars_cons _ _ noVar, fillVars_cons _ noVar]
      exact ⟨congrArg _ sameText, noFault⟩

/-- **What is on the page** after a template: its text with the values in it. -/
theorem write_template {wr : TemplateWriteFn Page} (appends : Appends wr) {memory : ℕ → Bool}
    {template : Template} {var : TemplateVarFn Page}
    (created : templateCreate memory text = .ok (.ok template))
    (holes : Holes position text found last)
    (succeeds : Succeeds var wr (faulty value) (found.map Prod.snd)) (page : Page) :
    ∃ fault, templateWrite (some template) (some var) wr page =
        .ok (0, page.1 ++ fillVars (fun name => (value name).1) text, fault) ∧
      (fault = none ↔ page.2 = none ∧ ∀ hole ∈ found, (value hole.2).2 = none) := by
  rcases templateCreate_cases memory text with ⟨steps, more, compiled, done⟩ | ⟨failed, -⟩
  · cases done.symm.trans created
    obtain ⟨sameText, noFault⟩ := replaceVars_faulty holes page.2
    refine ⟨(replaceVars (faulty value) text page.2).2, ?_, noFault⟩
    rw [← compiled.vars_eq holes] at succeeds
    rw [templateWrite, ← sameText]
    simp only [readCells_cells, Result.ok_bind]
    exact compiled.foldlM_write appends succeeds 0 page.1 page.2
  · cases failed.symm.trans created

end Write

end HashArchive.Templates
