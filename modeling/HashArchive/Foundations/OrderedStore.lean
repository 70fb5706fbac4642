import Mathlib.Data.Finmap
import Mathlib.Data.Finset.Max
import Mathlib.Data.Finset.Sort
import Mathlib.Order.Lattice

/-!
# Ordered stores

A store is a finite map. When its keys are linearly ordered, a cursor over a
range of keys finds the least or the greatest key of the range that the store
holds. The two searches are given here with the facts that characterise them:
`firstWithin_eq_some_iff` and `lastWithin_eq_some_iff` say which key they find,
`firstWithin_eq_none_iff` and `lastWithin_eq_none_iff` say when they find none.
`ascending` and `descending` list the keys of a range the way a cursor that steps
upwards or downwards meets them.

Reading and writing single keys are the operations of `Finmap`.
-/

set_option autoImplicit false

namespace HashArchive

universe u v

/-- A finite map from keys to values. -/
abbrev Store (Key : Type u) (Value : Type v) : Type (max u v) := Finmap fun _ : Key => Value

namespace Store

variable {Key : Type u} {Value : Type v}

section Range

variable (store : Store Key Value) (range : Key → Prop) [DecidablePred range]

/-- The keys of a range that the store holds. -/
def within : Finset Key := store.keys.filter range

variable {store range}

@[simp] theorem mem_within {key : Key} : key ∈ store.within range ↔ key ∈ store ∧ range key := by
  simp [within, Finmap.mem_keys]

end Range

variable [LinearOrder Key] (store : Store Key Value) (range : Key → Prop) [DecidablePred range]

/-- The least key of a range that the store holds. -/
def firstWithin : Option Key :=
  if found : (store.within range).Nonempty then some ((store.within range).min' found) else none

/-- The greatest key of a range that the store holds. -/
def lastWithin : Option Key :=
  if found : (store.within range).Nonempty then some ((store.within range).max' found) else none

/-- The keys of a range that the store holds, least first. -/
def ascending : List Key := (store.within range).sort (· ≤ ·)

/-- The keys of a range that the store holds, greatest first. -/
def descending : List Key := (store.within range).sort (· ≥ ·)

variable {store range}

@[simp] theorem mem_ascending {key : Key} :
    key ∈ store.ascending range ↔ key ∈ store ∧ range key := by
  rw [ascending, Finset.mem_sort, mem_within]

theorem pairwise_ascending : (store.ascending range).Pairwise (· < ·) :=
  (Finset.sortedLT_sort _).pairwise

@[simp] theorem mem_descending {key : Key} :
    key ∈ store.descending range ↔ key ∈ store ∧ range key := by
  rw [descending, Finset.mem_sort, mem_within]

theorem pairwise_descending : (store.descending range).Pairwise (· > ·) :=
  (Finset.sortedGT_sort _).pairwise

theorem firstWithin_eq_some_iff {key : Key} :
    store.firstWithin range = some key ↔
      (key ∈ store ∧ range key) ∧ ∀ other ∈ store, range other → key ≤ other := by
  unfold firstWithin
  split
  case isTrue found =>
    rw [Option.some.injEq, Finset.min'_eq_iff]
    simp only [mem_within, and_imp]
  case isFalse empty =>
    refine iff_of_false (by simp) fun ⟨member, _⟩ => empty ⟨key, mem_within.mpr member⟩

theorem firstWithin_eq_none_iff :
    store.firstWithin range = none ↔ ∀ key ∈ store, ¬ range key := by
  unfold firstWithin
  split
  case isTrue found =>
    obtain ⟨key, member⟩ := found
    obtain ⟨held, inRange⟩ := mem_within.mp member
    exact iff_of_false (by simp) fun absent => absent key held inRange
  case isFalse empty =>
    refine iff_of_true rfl fun key held inRange => empty ⟨key, mem_within.mpr ⟨held, inRange⟩⟩

theorem lastWithin_eq_some_iff {key : Key} :
    store.lastWithin range = some key ↔
      (key ∈ store ∧ range key) ∧ ∀ other ∈ store, range other → other ≤ key := by
  unfold lastWithin
  split
  case isTrue found =>
    rw [Option.some.injEq, Finset.max'_eq_iff]
    simp only [mem_within, and_imp]
  case isFalse empty =>
    refine iff_of_false (by simp) fun ⟨member, _⟩ => empty ⟨key, mem_within.mpr member⟩

theorem lastWithin_eq_none_iff :
    store.lastWithin range = none ↔ ∀ key ∈ store, ¬ range key := by
  unfold lastWithin
  split
  case isTrue found =>
    obtain ⟨key, member⟩ := found
    obtain ⟨held, inRange⟩ := mem_within.mp member
    exact iff_of_false (by simp) fun absent => absent key held inRange
  case isFalse empty =>
    refine iff_of_true rfl fun key held inRange => empty ⟨key, mem_within.mpr ⟨held, inRange⟩⟩

/-- A walk downwards starts at the greatest key. -/
theorem exists_descending_eq_cons {key : Key} (last : store.lastWithin range = some key) :
    ∃ keys, store.descending range = key :: keys := by
  obtain ⟨member, greatest⟩ := lastWithin_eq_some_iff.mp last
  cases listed : store.descending range with
  | nil =>
      have inList := mem_descending.mpr member
      rw [listed] at inList
      cases inList
  | cons first keys =>
      have sorted : (first :: keys).Pairwise (· > ·) := listed ▸ pairwise_descending
      have inList : key ∈ first :: keys := listed ▸ mem_descending.mpr member
      have firstMember : first ∈ store ∧ range first :=
        mem_descending.mp (listed ▸ List.mem_cons_self)
      rcases List.mem_cons.mp inList with rfl | later
      · exact ⟨keys, rfl⟩
      · have less := (List.pairwise_cons.mp sorted).1 key later
        exact absurd (greatest first firstMember.1 firstMember.2) (not_le.mpr less)

end Store

end HashArchive
