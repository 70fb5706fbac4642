import HashArchive.Foundations.CProgram

/-!
# Text in markup

A reader of markup is in text, in a tag, or in an attribute value between quotes
(`Position`). `tags` leaves out what is between tags and between quotes, so that two
pieces of markup with the same `tags` have the same tags and the same attribute
boundaries. Every `<` in text is taken to open a tag, so no tag is overlooked.

A text without `<` and quotes changes no position but that in a tag (`Quiet`). A format
that is filled with such a text has the same tags for each text (`tags_printf`), when none
of its holes is in a tag.

`Alike` pieces of markup have the same tags; a page whose parts are replaced by alike ones stays
alike (`Alike.append`, `SameBlock.flatten`).
-/

set_option autoImplicit false

namespace HashArchive.Markup

/-! ## Positions -/

/-- Where a reader of markup is. -/
inductive Position where
  | text
  | tag
  | doubleQuoted
  | singleQuoted
deriving DecidableEq, Repr

namespace Position

/-- Where a reader is after a character. -/
def next : Position → Char → Position
  | text, c => if c = '<' then tag else text
  | tag, c =>
    if c = '>' then text else if c = '"' then doubleQuoted
    else if c = '\'' then singleQuoted else tag
  | doubleQuoted, c => if c = '"' then tag else doubleQuoted
  | singleQuoted, c => if c = '\'' then tag else singleQuoted

/-- Where a reader is after a text. -/
def after (position : Position) (text : Str) : Position := text.foldl next position

theorem after_append (position : Position) (first second : Str) :
    position.after (first ++ second) = (position.after first).after second := List.foldl_append

end Position

/-- The characters of tags, and the quotes around values. -/
def tags : Position → Str → Str
  | _, [] => []
  | position, c :: rest =>
    (if position ≠ .tag ∧ position.next c = position then [] else [c]) ++
      tags (position.next c) rest

theorem tags_append (position : Position) (first second : Str) :
    tags position (first ++ second) = tags position first ++ tags (position.after first) second := by
  induction first generalizing position with
  | nil => rfl
  | cons c first ih =>
      rw [List.cons_append, tags, tags, ih, List.append_assoc]
      rfl

/-- A piece of markup that is replaced by one with the same tags. -/
theorem tags_replace {position : Position} {before first second : Str}
    (sameTags : tags (position.after before) first = tags (position.after before) second)
    (samePosition : (position.after before).after first = (position.after before).after second)
    (last : Str) : tags position (before ++ first ++ last) = tags position (before ++ second ++ last) := by
  rw [tags_append, tags_append position before, Position.after_append, sameTags, samePosition,
    tags_append, tags_append position before, Position.after_append]

/-! ## Quiet texts -/

/-- A text that opens no tag and ends no value. -/
def Quiet (text : Str) : Prop := ∀ c ∈ text, c ≠ '<' ∧ c ≠ '"' ∧ c ≠ '\''

namespace Quiet

variable {position : Position} {text : Str}

theorem next_eq {c : Char} (quiet : Quiet text) (member : c ∈ text) (outside : position ≠ .tag) :
    position.next c = position := by
  obtain ⟨opens, double, single⟩ := quiet c member
  cases position with
  | tag => exact absurd rfl outside
  | text => exact if_neg opens
  | doubleQuoted => exact if_neg double
  | singleQuoted => exact if_neg single

theorem after_eq (quiet : Quiet text) (outside : position ≠ .tag) : position.after text = position := by
  induction text with
  | nil => rfl
  | cons c text ih =>
      have here := quiet.next_eq List.mem_cons_self outside
      calc position.after (c :: text) = (position.next c).after text := rfl
        _ = position := by rw [here, ih fun c member => quiet c (List.mem_cons_of_mem _ member)]

theorem tags_eq (quiet : Quiet text) (outside : position ≠ .tag) : tags position text = [] := by
  induction text with
  | nil => rfl
  | cons c text ih =>
      have here := quiet.next_eq List.mem_cons_self outside
      rw [tags, if_pos ⟨outside, here⟩, here, List.nil_append]
      exact ih fun c member => quiet c (List.mem_cons_of_mem _ member)

theorem of_all (none : text.all (fun c => c ≠ '<' ∧ c ≠ '"' ∧ c ≠ '\'') = true) : Quiet text :=
  fun c member => of_decide_eq_true (List.all_eq_true.mp none c member)

theorem append {rest : Str} (quiet : Quiet text) (quietRest : Quiet rest) : Quiet (text ++ rest) :=
  fun c member => (List.mem_append.mp member).elim (quiet c) (quietRest c)

end Quiet

/-! ## Formats -/

/-- A format whose holes `%s` are all filled with one text. -/
def printf (arg : Str) : Str → Str
  | [] => []
  | '%' :: 's' :: format => arg ++ printf arg format
  | c :: format => c :: printf arg format

/-- No hole of the format is in a tag. -/
def HolesOutside (position : Position) : Str → Bool
  | [] => true
  | '%' :: 's' :: format => position != .tag && HolesOutside position format
  | c :: format => HolesOutside (position.next c) format

/-- **A quiet text in the holes of a format** is as good as none: the tags are the same, and
so is the position after them. -/
theorem tags_printf {position : Position} {arg format : Str} (quiet : Quiet arg)
    (outside : HolesOutside position format = true) :
    tags position (printf arg format) = tags position (printf [] format) ∧
      position.after (printf arg format) = position.after (printf [] format) := by
  fun_induction HolesOutside position format with
  | case1 position => exact ⟨rfl, rfl⟩
  | case2 position format ih =>
      rw [Bool.and_eq_true, bne_iff_ne] at outside
      obtain ⟨sameTags, samePosition⟩ := ih outside.2
      have after := quiet.after_eq outside.1
      refine ⟨?_, ?_⟩
      · show tags position (arg ++ printf arg format) = tags position (printf [] format)
        rw [tags_append, quiet.tags_eq outside.1, after, List.nil_append, sameTags]
      · show position.after (arg ++ printf arg format) = position.after (printf [] format)
        rw [Position.after_append, after, samePosition]
  | case3 position c format noHole ih =>
      obtain ⟨sameTags, samePosition⟩ := ih outside
      have plain (text : Str) : printf text (c :: format) = c :: printf text format := by
        rw [printf]
        exact noHole
      rw [plain, plain, tags, tags, sameTags]
      exact ⟨rfl, samePosition⟩

/-! ## Markup with the same tags -/

/-- Two pieces of markup with the same tags, after which a reader is in the same position. -/
structure Alike (position : Position) (first second : Str) : Prop where
  tags : tags position first = tags position second
  after : position.after first = position.after second

namespace Alike

variable {position : Position} {first second third rest other : Str}

theorem refl (position : Position) (text : Str) : Alike position text text := ⟨rfl, rfl⟩

theorem symm (alike : Alike position first second) : Alike position second first :=
  ⟨alike.tags.symm, alike.after.symm⟩

theorem trans (alike : Alike position first second) (next : Alike position second third) :
    Alike position first third :=
  ⟨alike.tags.trans next.tags, alike.after.trans next.after⟩

/-- **Alike pieces after alike pieces** are alike. -/
theorem append (alike : Alike position first second)
    (next : Alike (position.after first) rest other) :
    Alike position (first ++ rest) (second ++ other) where
  tags := by rw [tags_append, tags_append, alike.tags, next.tags, alike.after]
  after := by
    rw [Position.after_append, Position.after_append, next.after, alike.after]

theorem of_quiet (quiet : Quiet first) (other : Quiet second) (outside : position ≠ .tag) :
    Alike position first second where
  tags := by rw [quiet.tags_eq outside, other.tags_eq outside]
  after := by rw [quiet.after_eq outside, other.after_eq outside]

theorem printf {arg format : Str} (quiet : Quiet arg)
    (outside : HolesOutside position format = true) :
    Alike position (Markup.printf arg format) (Markup.printf [] format) :=
  ⟨(tags_printf quiet outside).1, (tags_printf quiet outside).2⟩

end Alike

/-- A piece of markup with the tags of another one, from text to text. -/
structure SameBlock (first second : Str) : Prop extends Alike .text first second where
  closed : Position.text.after first = .text

namespace SameBlock

variable {first second rest other : Str}

theorem trans {third : Str} (same : SameBlock first second) (alike : Alike .text second third) :
    SameBlock first third := ⟨same.toAlike.trans alike, same.closed⟩

theorem append (same : SameBlock first second) (next : SameBlock rest other) :
    SameBlock (first ++ rest) (second ++ other) where
  toAlike := same.toAlike.append (same.closed.symm ▸ next.toAlike)
  closed := by rw [Position.after_append, same.closed, next.closed]

/-- **Blocks that are replaced one by one.** -/
theorem flatten {firsts seconds : List Str} (same : List.Forall₂ SameBlock firsts seconds) :
    SameBlock firsts.flatten seconds.flatten := by
  induction same with
  | nil => exact ⟨Alike.refl .text [], rfl⟩
  | cons here _ ih =>
      rw [List.flatten_cons, List.flatten_cons]
      exact here.append ih

/-- A text that opens no tag is as good as none. -/
theorem of_notMem (opensNone : '<' ∉ first) : SameBlock first [] := by
  induction first with
  | nil => exact ⟨Alike.refl .text [], rfl⟩
  | cons c first ih =>
      obtain ⟨notHere, later⟩ := not_or.mp (mt List.mem_cons.mpr opensNone)
      have stays : Position.text.next c = .text := if_neg fun same => notHere same.symm
      have skipped : tags .text [c] = [] := by
        rw [tags, tags, if_pos ⟨by decide, stays⟩]
        rfl
      have alone : SameBlock [c] [] := ⟨⟨skipped, stays⟩, stays⟩
      exact alone.append (ih later)

theorem of_notMems (firstNone : '<' ∉ first) (secondNone : '<' ∉ second) : SameBlock first second :=
  (of_notMem firstNone).trans (of_notMem secondNone).symm

/-- What stays the same. -/
theorem refl (closed : Position.text.after first = .text) : SameBlock first first :=
  ⟨Alike.refl .text first, closed⟩

end SameBlock

end HashArchive.Markup
