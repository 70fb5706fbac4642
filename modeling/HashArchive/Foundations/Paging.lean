import HashArchive.Foundations.FirstOf
import Mathlib.Data.List.TakeWhile
import Mathlib.Order.Lattice

/-!
# Reading in pages

A reader takes a growing collection a page at a time. Each page is the first elements,
up to a count, from a position on; the next page starts right after the last element of
the one before, and may be read when there is more in the collection. The reader stops
at a page that is not full or that goes beyond what is wanted, of which it keeps the
elements before.

`Paged` describes what such a reader collects. It is in order (`Paged.sorted`), all of it
was there and was wanted (`Paged.sound`), and nothing that was there when the first page
was read is left out (`Paged.complete`).
-/

set_option autoImplicit false

namespace HashArchive

universe u v

variable {α : Type u} {ι : Type v} [LinearOrder ι]

/-- A page: the first elements that are held, from a position on. -/
def IsPage (position : α → ι) (count : ℕ) (held : α → Prop) (start : ι) (page : List α) : Prop :=
  FirstOf count (fun x => held x ∧ start ≤ position x) (fun x y => position x < position y) page

section Paged

variable (position next : α → ι) (count : ℕ) (held : ℕ → α → Prop) (wanted : α → Bool)

/-- **What is collected** from a moment and a position on. -/
inductive Paged : ℕ → ι → List α → Prop where
  | last {moment : ℕ} {start : ι} {page : List α} :
      IsPage position count (held moment) start page →
        (page.length < count ∨ ∃ x ∈ page, wanted x = false) →
          Paged moment start (page.takeWhile wanted)
  | more {moment : ℕ} {start : ι} {page rest : List α} {x : α} :
      IsPage position count (held moment) start page → x ∈ page.getLast? → wanted x = true →
        Paged (moment + 1) (next x) rest → Paged moment start (page ++ rest)

end Paged

section Exact

variable {position next : α → ι} {count : ℕ} {held : ℕ → α → Prop} {wanted : α → Bool}
  {moment : ℕ} {start : ι} {page listed : List α}

/-- In a sorted list, nothing is after the last element. -/
theorem le_of_mem_getLast? (sorted : page.Pairwise fun x y => position x < position y) {x y : α}
    (last : x ∈ page.getLast?) (member : y ∈ page) : position y ≤ position x := by
  obtain ⟨front, rfl⟩ := List.getLast?_eq_some_iff.mp last
  rcases List.mem_append.mp member with earlier | atEnd
  · exact le_of_lt ((List.pairwise_append.mp sorted).2.2 y earlier x (List.mem_singleton_self x))
  · rw [List.mem_singleton.mp atEnd]

/-- The wanted elements of a sorted list come first. -/
theorem mem_takeWhile_iff (sorted : page.Pairwise fun x y => position x < position y)
    (down : ∀ x y, position x ≤ position y → wanted y = true → wanted x = true) {x : α} :
    x ∈ page.takeWhile wanted ↔ x ∈ page ∧ wanted x = true := by
  refine ⟨fun member => ⟨(List.takeWhile_sublist _).subset member, List.mem_takeWhile_imp member⟩, ?_⟩
  rintro ⟨member, isWanted⟩
  induction page with
  | nil => cases member
  | cons first rest ih =>
      obtain ⟨before, sortedRest⟩ := List.pairwise_cons.mp sorted
      rcases List.mem_cons.mp member with rfl | later
      · rw [List.takeWhile_cons_of_pos isWanted]
        exact List.mem_cons_self
      · rw [List.takeWhile_cons_of_pos (down first x (le_of_lt (before x later)) isWanted)]
        exact List.mem_cons_of_mem _ (ih sortedRest later)

variable (down : ∀ x y, position x ≤ position y → wanted y = true → wanted x = true)
  (after : ∀ x y, next x ≤ position y ↔ position x < position y)

include down after in
/-- **All that is collected was held, from the start on, and is wanted.** -/
theorem Paged.sound (paged : Paged position next count held wanted moment start listed) {x : α}
    (member : x ∈ listed) :
    start ≤ position x ∧ wanted x = true ∧ ∃ later, moment ≤ later ∧ held later x := by
  induction paged with
  | @last moment start page isPage stop =>
      obtain ⟨inPage, isWanted⟩ := (mem_takeWhile_iff isPage.ordered down).mp member
      obtain ⟨wasHeld, from_⟩ := isPage.sound x inPage
      exact ⟨from_, isWanted, moment, Nat.le_refl _, wasHeld⟩
  | @more moment start page rest last isPage atEnd isWanted _ ih =>
      rcases List.mem_append.mp member with inPage | inRest
      · obtain ⟨wasHeld, from_⟩ := isPage.sound x inPage
        exact ⟨from_, down x last (le_of_mem_getLast? isPage.ordered atEnd inPage) isWanted,
          moment, Nat.le_refl _, wasHeld⟩
      · obtain ⟨beyond, isWanted, later, atLeast, wasHeld⟩ := ih inRest
        have from_ := (isPage.sound last (List.mem_of_mem_getLast? atEnd)).2
        exact ⟨from_.trans (le_of_lt ((after last x).mp beyond)), isWanted, later, by omega,
          wasHeld⟩

include down after in
/-- **What is collected is in order.** -/
theorem Paged.sorted (paged : Paged position next count held wanted moment start listed) :
    listed.Pairwise fun x y => position x < position y := by
  induction paged with
  | last isPage _ => exact isPage.ordered.sublist (List.takeWhile_sublist _)
  | @more moment start page rest last isPage atEnd _ paged ih =>
      refine List.pairwise_append.mpr ⟨isPage.ordered, ih, fun x inPage y inRest => ?_⟩
      have beyond := (after last y).mp (paged.sound down after inRest).1
      exact (le_of_mem_getLast? isPage.ordered atEnd inPage).trans_lt beyond

include down after in
/-- **Nothing is missed** that is held when the first page is read. -/
theorem Paged.complete (grows : ∀ moment x, held moment x → held (moment + 1) x)
    (paged : Paged position next count held wanted moment start listed) {x : α}
    (isHeld : held moment x) (from_ : start ≤ position x) (isWanted : wanted x = true) :
    x ∈ listed := by
  induction paged with
  | @last moment start page isPage stop =>
      refine (mem_takeWhile_iff isPage.ordered down).mpr ⟨?_, isWanted⟩
      by_contra leftOut
      obtain ⟨full, before⟩ := isPage.rest x ⟨isHeld, from_⟩ leftOut
      rcases stop with short | ⟨y, inPage, notWanted⟩
      · omega
      · rw [down y x (le_of_lt (before y inPage)) isWanted] at notWanted
        cases notWanted
  | @more moment start page rest last isPage atEnd _ _ ih =>
      by_cases inPage : x ∈ page
      · exact List.mem_append_left _ inPage
      · have before := (isPage.rest x ⟨isHeld, from_⟩ inPage).2 last
          (List.mem_of_mem_getLast? atEnd)
        exact List.mem_append_right _ (ih (grows _ x isHeld) ((after last x).mpr before))

end Exact

end HashArchive
