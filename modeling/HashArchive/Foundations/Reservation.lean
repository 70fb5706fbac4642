import Mathlib.Data.Set.Insert
import Mathlib.Logic.Function.Basic

/-!
# Keys that are reserved before they are stored

Several sources store items in one table, each under a key that the source has
chosen some time before. A key is reserved from the choice until the item is stored
or given up.

When a source reserves only keys that are free, neither stored nor reserved, then a
key that is reserved stays free for its source alone until it is stored: `Sound`
says so, and every step keeps it (`Sound.step`). Nothing is assumed about how a source
finds keys that are free.
-/

set_option autoImplicit false

namespace HashArchive

universe u v

/-- The keys that are stored and those that each source has reserved. -/
@[ext]
structure Reservations (Key : Type u) (Source : Type v) where
  stored : Set Key
  reserved : Source → Set Key

namespace Reservations

variable {Key : Type u} {Source : Type v}

/-- Nothing is stored or reserved under a key. -/
structure Free (table : Reservations Key Source) (key : Key) : Prop where
  notStored : key ∉ table.stored
  notReserved : ∀ source, key ∉ table.reserved source

/-- **A reserved key is free for its source alone.** -/
structure Sound (table : Reservations Key Source) : Prop where
  notStored : ∀ {source key}, key ∈ table.reserved source → key ∉ table.stored
  alone : ∀ {source other key}, key ∈ table.reserved source → key ∈ table.reserved other →
    source = other

variable [DecidableEq Source]

/-- The steps of the sources. -/
inductive Step : Reservations Key Source → Reservations Key Source → Prop where
  | reserve {table : Reservations Key Source} {source : Source} {keys : Set Key}
      (free : ∀ key ∈ keys, table.Free key) :
      Step table { table with reserved := Function.update table.reserved source keys }
  | store {table : Reservations Key Source} {source : Source} {keys rest : Set Key}
      (taken : keys ⊆ table.reserved source) (remaining : rest ⊆ table.reserved source)
      (apart : ∀ key ∈ keys, key ∉ rest) :
      Step table {
        stored := table.stored ∪ keys
        reserved := Function.update table.reserved source rest }
  | release {table : Reservations Key Source} {fewer : Source → Set Key}
      (within : ∀ source, fewer source ⊆ table.reserved source) :
      Step table { table with reserved := fewer }

/-- A key that is reserved after one source has changed its keys. -/
theorem mem_update_iff {reserved : Source → Set Key} {source other : Source} {keys : Set Key}
    {key : Key} : key ∈ Function.update reserved source keys other ↔
      (other = source ∧ key ∈ keys) ∨ (other ≠ source ∧ key ∈ reserved other) := by
  by_cases same : other = source
  · subst same
    simp
  · simp [same]

/-- Nothing is stored and no source gains a key. -/
theorem Step.of_subset {before after : Reservations Key Source}
    (stored : after.stored = before.stored)
    (within : ∀ source, after.reserved source ⊆ before.reserved source) : Step before after := by
  have same : after = { before with reserved := after.reserved } := Reservations.ext stored rfl
  rw [same]
  exact .release within

/-- A source gives up some of its keys. -/
theorem Step.give_up {table : Reservations Key Source} {source : Source} {rest : Set Key}
    (remaining : rest ⊆ table.reserved source) :
    Step table { table with reserved := Function.update table.reserved source rest } := by
  refine .release fun other key member => ?_
  rcases mem_update_iff.mp member with ⟨rfl, left⟩ | ⟨-, old⟩
  · exact remaining left
  · exact old

/-- A source stores some of its keys and keeps others. -/
theorem Step.of_store {before after : Reservations Key Source} {source : Source}
    {keys rest : Set Key} (taken : keys ⊆ before.reserved source)
    (remaining : rest ⊆ before.reserved source) (apart : ∀ key ∈ keys, key ∉ rest)
    (stored : ∀ key, key ∈ after.stored ↔ key ∈ keys ∨ key ∈ before.stored)
    (reserved : after.reserved = Function.update before.reserved source rest) :
    Step before after := by
  have same : after = {
      stored := before.stored ∪ keys
      reserved := Function.update before.reserved source rest } :=
    Reservations.ext (Set.ext fun key => (stored key).trans or_comm) reserved
  rw [same]
  exact .store taken remaining apart

/-- **Every step keeps reserved keys apart.** -/
theorem Sound.step {before after : Reservations Key Source} (sound : before.Sound)
    (step : Step before after) : after.Sound := by
  cases step with
  | @reserve source keys free =>
      constructor
      · intro holder key member
        rcases mem_update_iff.mp member with ⟨-, new⟩ | ⟨-, old⟩
        · exact (free key new).notStored
        · exact sound.notStored old
      · intro holder other key member memberOther
        rcases mem_update_iff.mp member with ⟨rfl, new⟩ | ⟨-, old⟩ <;>
          rcases mem_update_iff.mp memberOther with ⟨rfl, newOther⟩ | ⟨-, oldOther⟩
        · rfl
        · exact absurd oldOther ((free key new).notReserved other)
        · exact absurd old ((free key newOther).notReserved holder)
        · exact sound.alone old oldOther
  | @store source keys rest taken remaining apart =>
      constructor
      · rintro holder key member (stored | now)
        · rcases mem_update_iff.mp member with ⟨rfl, left⟩ | ⟨-, old⟩
          · exact sound.notStored (remaining left) stored
          · exact sound.notStored old stored
        · rcases mem_update_iff.mp member with ⟨-, left⟩ | ⟨different, old⟩
          · exact apart key now left
          · exact different (sound.alone old (taken now))
      · intro holder other key member memberOther
        have reserved {one : Source} (held : key ∈ Function.update before.reserved source rest one) :
            key ∈ before.reserved one := by
          rcases mem_update_iff.mp held with ⟨rfl, left⟩ | ⟨-, old⟩
          · exact remaining left
          · exact old
        exact sound.alone (reserved member) (reserved memberOther)
  | release within =>
      exact ⟨fun member => sound.notStored (within _ member),
        fun member memberOther => sound.alone (within _ member) (within _ memberOther)⟩

end Reservations

end HashArchive
