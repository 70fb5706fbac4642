import Mathlib.Data.List.Perm.Subperm
import Mathlib.Order.Basic

/-!
# The first elements of an order

A query that walks an index and stops when its buffer is full answers the first
elements with a property, in the order of the index. `FirstOf` says so of a
list: it is in order, all its elements have the property, and an element with the
property that is left out comes after all of them, which happens only when the
list is full.

`firstOf_take_filter` is the walk itself: the elements of an ordered list that
pass a test, up to the limit. `exists_map_eq` goes from the keys of the index to
what they stand for, and `FirstOf.mem_iff` tells the members from the property and
the order alone.
-/

set_option autoImplicit false

namespace HashArchive

universe u v

variable {α : Type u} {β : Type v}

/-- The first `count` of the elements with a property, in the order of `before`. -/
structure FirstOf (count : ℕ) (holds : α → Prop) (before : α → α → Prop) (listed : List α) :
    Prop where
  ordered : listed.Pairwise before
  sound : ∀ x ∈ listed, holds x
  few : listed.length ≤ count
  rest : ∀ x, holds x → x ∉ listed → listed.length = count ∧ ∀ y ∈ listed, before y x

/-- There are not `count` elements with the property before this one. -/
def Among (count : ℕ) (holds : α → Prop) (before : α → α → Prop) (x : α) : Prop :=
  ¬ ∃ ahead : List α, ahead.Nodup ∧ ahead.length = count ∧ ∀ y ∈ ahead, holds y ∧ before y x

section First

variable {count : ℕ} {holds : α → Prop} {before : α → α → Prop} {listed all : List α}

/-- The keys of an index, each of which stands for an element, are the keys of a list of
elements. -/
theorem exists_map_eq {key : α → β} {keys : List β}
    (stands : ∀ indexed ∈ keys, ∃ x, holds x ∧ key x = indexed) :
    ∃ all : List α, all.map key = keys ∧ ∀ x ∈ all, holds x := by
  induction keys with
  | nil => exact ⟨[], rfl, by simp⟩
  | cons first keys ih =>
      obtain ⟨⟨x, held, rfl⟩, later⟩ := List.forall_mem_cons.mp stands
      obtain ⟨all, rfl, sound⟩ := ih later
      exact ⟨x :: all, rfl, List.forall_mem_cons.mpr ⟨held, sound⟩⟩

/-- A member of an ordered list that a limit leaves out comes after those it keeps. -/
theorem before_of_not_mem_take (sorted : all.Pairwise before) {x : α} (member : x ∈ all)
    (leftOut : x ∉ all.take count) :
    (all.take count).length = count ∧ ∀ y ∈ all.take count, before y x := by
  rw [← List.take_append_drop count all] at sorted member
  have later : x ∈ all.drop count := (List.mem_append.mp member).resolve_left leftOut
  have long := List.length_pos_of_mem later
  rw [List.length_drop] at long
  refine ⟨by rw [List.length_take]; omega, ?_⟩
  intro y kept
  exact (List.pairwise_append.mp sorted).2.2 y kept x later

/-- **A walk over an ordered list** that keeps what passes a test, up to a limit, ends
with the first elements of the list that pass. -/
theorem firstOf_take_filter (sorted : all.Pairwise before) (test : α → Bool) (count : ℕ) :
    FirstOf count (fun x => x ∈ all ∧ test x = true) before ((all.filter test).take count) where
  ordered := (sorted.filter test).take
  sound _ member := List.mem_filter.mp (List.mem_of_mem_take member)
  few := List.length_take_le _ _
  rest _ passes leftOut :=
    before_of_not_mem_take (sorted.filter test) (List.mem_filter.mpr passes) leftOut

theorem FirstOf.congr {other : α → Prop} (first : FirstOf count holds before listed)
    (same : ∀ x, holds x ↔ other x) : FirstOf count other before listed where
  ordered := first.ordered
  sound x member := (same x).mp (first.sound x member)
  few := first.few
  rest x held := first.rest x ((same x).mpr held)

/-- In an order without cycles of two, no element is listed twice. -/
theorem FirstOf.nodup (first : FirstOf count holds before listed)
    (asymm : ∀ x y, before x y → ¬ before y x) : listed.Nodup := by
  apply first.ordered.imp
  rintro x _ earlier rfl
  exact asymm x x earlier earlier

/-- **The members**: the elements with the property that have fewer than `count` of them
before. -/
theorem FirstOf.mem_iff (first : FirstOf count holds before listed)
    (asymm : ∀ x y, before x y → ¬ before y x) {x : α} :
    x ∈ listed ↔ holds x ∧ Among count holds before x := by
  constructor
  · intro member
    refine ⟨first.sound x member, ?_⟩
    rintro ⟨ahead, distinct, full, earlier⟩
    have listedToo : x :: ahead ⊆ listed := by
      intro y inAhead
      rcases List.mem_cons.mp inAhead with rfl | inAhead
      · exact member
      · by_contra leftOut
        obtain ⟨held, beforeX⟩ := earlier y inAhead
        exact asymm y x beforeX ((first.rest y held leftOut).2 x member)
    have distinctToo : (x :: ahead).Nodup := by
      refine List.nodup_cons.mpr ⟨fun inAhead => ?_, distinct⟩
      exact asymm x x (earlier x inAhead).2 (earlier x inAhead).2
    have tooMany := (distinctToo.subperm listedToo).length_le
    have few := first.few
    rw [List.length_cons] at tooMany
    omega
  · rintro ⟨held, fewBefore⟩
    by_contra leftOut
    obtain ⟨full, earlier⟩ := first.rest x held leftOut
    exact fewBefore ⟨listed, first.nodup asymm, full, fun y member =>
      ⟨first.sound y member, earlier y member⟩⟩

end First

end HashArchive
