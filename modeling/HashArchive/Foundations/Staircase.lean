import Mathlib.Data.List.Basic
import Mathlib.Order.Lattice

/-!
# A cursor that jumps to the key of what was found

Rows are in some order, and a search looks for the first row whose key is beyond a cursor.
The cursor then becomes the key of that row, and the search begins again at the first row. When
the order of the rows is not the order of the keys, a row is passed over for good once the
cursor is beyond its key.

What such a walk visits is what one pass over the rows finds that keeps the greatest key so far
(`walk_eq_records`): a row is visited exactly when its key is greater than the keys of all rows
before it (`mem_records_iff`).
-/

set_option autoImplicit false

namespace HashArchive.Staircase

variable {α κ : Type} [LinearOrder κ] (key : α → κ)

/-- A walk with a cursor; `none` when the fuel runs out. -/
def walk (rows : List α) : ℕ → κ → Option (List α)
  | 0, _ => none
  | fuel + 1, cursor =>
    match rows.find? fun row => cursor < key row with
    | none => some []
    | some row => (walk rows fuel (key row)).map fun visited => row :: visited

/-- The rows of one pass whose keys are greater than all keys before. -/
def records : κ → List α → List α
  | _, [] => []
  | cursor, row :: rows =>
    if cursor < key row then row :: records (key row) rows else records cursor rows

variable {key}

/-- Nothing is found among rows that the cursor has passed. -/
theorem find?_of_below {passed : List α} {cursor : κ} (below : ∀ row ∈ passed, key row ≤ cursor) :
    passed.find? (fun row => cursor < key row) = none :=
  List.find?_eq_none.mpr fun row member => by simpa using below row member

/-- Rows that the cursor has passed make no difference. -/
theorem walk_append {passed rows : List α} {cursor : κ} {fuel : ℕ}
    (below : ∀ row ∈ passed, key row ≤ cursor) (enough : rows.length < fuel) :
    walk key (passed ++ rows) fuel cursor = some (records key cursor rows) := by
  induction rows generalizing passed cursor fuel with
  | nil =>
      obtain ⟨fuel, rfl⟩ := Nat.exists_eq_add_of_lt enough
      rw [List.append_nil, walk, find?_of_below below, records]
  | cons row rows ih =>
      have split : passed ++ row :: rows = passed ++ [row] ++ rows := by simp
      by_cases beyond : cursor < key row
      · obtain ⟨fuel, rfl⟩ := Nat.exists_eq_add_of_lt (Nat.zero_lt_of_lt enough)
        have found : (passed ++ row :: rows).find? (fun row => cursor < key row) = some row := by
          rw [List.find?_append, find?_of_below below,
            List.find?_cons_of_pos (by simpa using beyond), Option.none_or]
        have next : ∀ other ∈ passed ++ [row], key other ≤ key row := by
          intro other member
          rcases List.mem_append.mp member with earlier | same
          · exact (below other earlier).trans beyond.le
          · exact (List.mem_singleton.mp same) ▸ le_refl _
        rw [walk, found, records, if_pos beyond, split]
        dsimp only
        rw [ih next (by simp only [List.length_cons] at enough; omega)]
        rfl
      · have next : ∀ other ∈ passed ++ [row], key other ≤ cursor := by
          intro other member
          rcases List.mem_append.mp member with earlier | same
          · exact below other earlier
          · exact (List.mem_singleton.mp same) ▸ not_lt.mp beyond
        rw [records, if_neg beyond, split]
        exact ih next (Nat.lt_of_succ_lt enough)

/-- **A walk visits what one pass finds.** -/
theorem walk_eq_records {rows : List α} {fuel : ℕ} (cursor : κ) (enough : rows.length < fuel) :
    walk key rows fuel cursor = some (records key cursor rows) := by
  have walked := @walk_append _ _ _ key [] rows cursor fuel (List.forall_mem_nil _) enough
  rwa [List.nil_append] at walked

theorem records_sublist (cursor : κ) (rows : List α) : (records key cursor rows).Sublist rows := by
  induction rows generalizing cursor with
  | nil => exact .slnil
  | cons row rows ih =>
      rw [records]
      split_ifs
      · exact (ih _).cons_cons row
      · exact (ih _).cons row

/-- **Which rows are visited**: those whose keys are greater than all keys before them. -/
theorem mem_records_iff {before : α → α → Prop} (asymm : ∀ {a b}, before a b → ¬ before b a)
    {rows : List α} (sorted : rows.Pairwise before) {cursor : κ} {row : α} :
    row ∈ records key cursor rows ↔ row ∈ rows ∧ cursor < key row ∧
      ∀ other ∈ rows, before other row → key other < key row := by
  induction rows generalizing cursor with
  | nil => simp [records]
  | cons first rows ih =>
      obtain ⟨ahead, sorted⟩ := List.pairwise_cons.mp sorted
      have notBefore {other : α} (later : other ∈ rows) : ¬ before other first :=
        asymm (ahead other later)
      rw [records]
      by_cases beyond : cursor < key first
      · rw [if_pos beyond, List.mem_cons, List.mem_cons, List.forall_mem_cons, ih sorted]
        constructor
        · rintro (rfl | ⟨later, greater, others⟩)
          · exact ⟨.inl rfl, beyond, fun self => absurd self (asymm self),
              fun other member earlier => absurd earlier (notBefore member)⟩
          · exact ⟨.inr later, beyond.trans greater, fun _ => greater, others⟩
        · rintro ⟨rfl | later, -, greater, others⟩
          · exact .inl rfl
          · exact .inr ⟨later, greater (ahead row later), others⟩
      · rw [if_neg beyond, List.mem_cons, List.forall_mem_cons, ih sorted]
        constructor
        · rintro ⟨later, greater, others⟩
          exact ⟨.inr later, greater, fun _ => (not_lt.mp beyond).trans_lt greater, others⟩
        · rintro ⟨rfl | later, greater, -, others⟩
          · exact absurd greater beyond
          · exact ⟨later, greater, others⟩

end HashArchive.Staircase
