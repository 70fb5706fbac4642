import Mathlib.Data.Set.Insert
import Mathlib.Logic.Function.Basic
import Mathlib.Order.Defs.LinearOrder

/-!
# Queues that are read through a cursor

Workers share a set of queued entries and one cursor over the places of the
entries. A worker finds the first entry beyond the cursor, claims it by moving the
cursor there, and later answers it, which takes it out of the queue, or drops it.
Entries are inserted at any time, and a reset puts the cursor back to the origin and
forgets what the workers hold.

`Sound` is what any steps keep: an entry that is held is queued and not beyond the
cursor, and no two workers hold entries of one place. So no entry is answered
twice. `Orderly` adds that every queued entry is still beyond the cursor or held. It
is kept by the steps that insert in order and drop nothing (`Orderly.step`): an entry
that is dropped stays behind the cursor.
-/

set_option autoImplicit false

namespace HashArchive

universe u v w

/-- The state of the queue. -/
@[ext]
structure CursorQueue (Entry : Type u) (Place : Type v) (Worker : Type w) where
  queued : Set Entry
  cursor : Place
  /-- What a worker that searches has found and not yet claimed. -/
  found : Worker → Option Entry
  /-- What a worker has claimed. -/
  held : Worker → Option Entry

namespace CursorQueue

/-- What happens in a step. -/
inductive Label (Entry : Type u) (Worker : Type w) where
  | insert (entry : Entry)
  | find (worker : Worker) (entry : Entry)
  | claim (worker : Worker) (entry : Entry)
  | drop (worker : Worker)
  | answer (worker : Worker) (entry : Entry)
  | reset

variable {Entry : Type u} {Place : Type v} {Worker : Type w} [LinearOrder Place]

/-- **What workers find and hold.** -/
structure Sound (place : Entry → Place) (queue : CursorQueue Entry Place Worker) : Prop where
  found_queued : ∀ {worker entry}, queue.found worker = some entry → entry ∈ queue.queued
  found_beyond : ∀ {worker entry}, queue.found worker = some entry → queue.cursor < place entry
  found_alone : ∀ {worker other entry seen}, queue.found worker = some entry →
    queue.found other = some seen → worker = other
  held_queued : ∀ {worker entry}, queue.held worker = some entry → entry ∈ queue.queued
  held_behind : ∀ {worker entry}, queue.held worker = some entry → place entry ≤ queue.cursor
  held_apart : ∀ {worker other entry kept}, queue.held worker = some entry →
    queue.held other = some kept → place entry = place kept → worker = other

/-- An entry that is held is not one that is found. -/
theorem Sound.held_ne_found {place : Entry → Place} {queue : CursorQueue Entry Place Worker}
    (sound : Sound place queue) {worker other : Worker} {entry seen : Entry}
    (held : queue.held worker = some entry) (found : queue.found other = some seen) :
    seen ≠ entry := by
  rintro rfl
  exact (sound.held_behind held).not_gt (sound.found_beyond found)

/-- **No entry is left behind.** -/
structure Orderly (place : Entry → Place) (queue : CursorQueue Entry Place Worker) : Prop where
  /-- Entries have places of their own. -/
  apart : ∀ {entry other}, entry ∈ queue.queued → other ∈ queue.queued → place entry = place other →
    entry = other
  /-- What is found comes first beyond the cursor. -/
  first : ∀ {worker seen entry}, queue.found worker = some seen → entry ∈ queue.queued →
    queue.cursor < place entry → place seen ≤ place entry
  /-- Every entry is beyond the cursor or held. -/
  pending : ∀ {entry}, entry ∈ queue.queued →
    queue.cursor < place entry ∨ ∃ worker, queue.held worker = some entry

/-- A step inserts in order and drops nothing. -/
structure InOrder (place : Entry → Place) (queue : CursorQueue Entry Place Worker)
    (label : Label Entry Worker) : Prop where
  beyond : ∀ {entry}, label = .insert entry → queue.cursor < place entry
  afterFound : ∀ {entry worker seen}, label = .insert entry → queue.found worker = some seen →
    place seen < place entry
  apart : ∀ {entry other}, label = .insert entry → other ∈ queue.queued →
    place other ≠ place entry
  keeps : ∀ {worker}, label = .drop worker → queue.held worker = none

variable [DecidableEq Worker]

/-- The steps of the queue. One search is in progress at a time. -/
inductive Step (place : Entry → Place) (origin : Place) :
    CursorQueue Entry Place Worker → Label Entry Worker → CursorQueue Entry Place Worker → Prop where
  | insert {queue : CursorQueue Entry Place Worker} {entry : Entry} (absent : entry ∉ queue.queued) :
      Step place origin queue (.insert entry) { queue with queued := insert entry queue.queued }
  | find {queue : CursorQueue Entry Place Worker} {worker : Worker} {entry : Entry}
      (queued : entry ∈ queue.queued) (beyond : queue.cursor < place entry)
      (first : ∀ other ∈ queue.queued, queue.cursor < place other → place entry ≤ place other)
      (alone : ∀ other, queue.found other = none) :
      Step place origin queue (.find worker entry)
        { queue with found := Function.update queue.found worker (some entry) }
  | claim {queue : CursorQueue Entry Place Worker} {worker : Worker} {entry : Entry}
      (found : queue.found worker = some entry) (free : queue.held worker = none) :
      Step place origin queue (.claim worker entry) { queue with
        cursor := place entry
        found := Function.update queue.found worker none
        held := Function.update queue.held worker (some entry) }
  | drop {queue : CursorQueue Entry Place Worker} (worker : Worker) :
      Step place origin queue (.drop worker)
        { queue with held := Function.update queue.held worker none }
  | answer {queue : CursorQueue Entry Place Worker} {worker : Worker} {entry : Entry}
      (held : queue.held worker = some entry) :
      Step place origin queue (.answer worker entry) { queue with
        queued := queue.queued \ {entry}
        held := Function.update queue.held worker none }
  | reset (queue : CursorQueue Entry Place Worker) :
      Step place origin queue .reset { queue with
        cursor := origin
        found := fun _ => none
        held := fun _ => none }

variable {place : Entry → Place} {origin : Place} {queue next : CursorQueue Entry Place Worker}
  {label : Label Entry Worker}

/-! ## What all steps keep -/

/-- An assignment to one worker, read back. -/
theorem update_eq_some {assigned : Worker → Option Entry} {worker other : Worker}
    {value : Option Entry} {entry : Entry} :
    Function.update assigned worker value other = some entry ↔
      other = worker ∧ value = some entry ∨ other ≠ worker ∧ assigned other = some entry := by
  rw [Function.update_apply]
  split_ifs with same <;> simp [same]

/-- What is assigned after one worker has let go. -/
theorem of_update_none {assigned : Worker → Option Entry} {worker other : Worker} {entry : Entry}
    (still : Function.update assigned worker none other = some entry) :
    other ≠ worker ∧ assigned other = some entry := by
  rcases update_eq_some.mp still with ⟨-, nothing⟩ | both
  · cases nothing
  · exact both

/-- **Every step keeps it.** -/
theorem Sound.step (sound : Sound place queue) (step : Step place origin queue label next) :
    Sound place next := by
  cases step with
  | insert absent =>
      exact {
        found_queued := fun found => .inr (sound.found_queued found)
        found_beyond := sound.found_beyond
        found_alone := sound.found_alone
        held_queued := fun held => .inr (sound.held_queued held)
        held_behind := sound.held_behind
        held_apart := sound.held_apart }
  | find queued beyond first alone =>
      have only {other : _} {seen : _} (found : queue.found other = some seen) : False := by
        simp [alone other] at found
      refine { sound with found_queued := ?_, found_beyond := ?_, found_alone := ?_ }
      · intro other seen found
        rcases update_eq_some.mp found with ⟨-, same⟩ | ⟨-, found⟩
        · exact Option.some_inj.mp same ▸ queued
        · exact (only found).elim
      · intro other seen found
        rcases update_eq_some.mp found with ⟨-, same⟩ | ⟨-, found⟩
        · exact Option.some_inj.mp same ▸ beyond
        · exact (only found).elim
      · intro other third seen last found foundThird
        rcases update_eq_some.mp found with ⟨rfl, -⟩ | ⟨-, found⟩
        · rcases update_eq_some.mp foundThird with ⟨rfl, -⟩ | ⟨-, found⟩
          · rfl
          · exact (only found).elim
        · exact (only found).elim
  | @claim worker entry found free =>
      have behind := sound.found_beyond found
      have gone {other : _} {seen : _}
          (still : Function.update queue.found worker none other = some seen) : False := by
        obtain ⟨different, also⟩ := of_update_none still
        exact different (sound.found_alone also found)
      refine {
        found_queued := fun still => (gone still).elim
        found_beyond := fun still => (gone still).elim
        found_alone := fun still => (gone still).elim
        held_queued := ?_
        held_behind := ?_
        held_apart := ?_ }
      · intro other kept held
        rcases update_eq_some.mp held with ⟨-, same⟩ | ⟨-, held⟩
        · exact Option.some_inj.mp same ▸ sound.found_queued found
        · exact sound.held_queued held
      · intro other kept held
        rcases update_eq_some.mp held with ⟨-, same⟩ | ⟨-, held⟩
        · exact (congrArg place (Option.some_inj.mp same)).ge
        · exact (sound.held_behind held).trans behind.le
      · intro other third kept last held heldThird same
        -- What was held before lies behind what is claimed now.
        have before {worker : _} {kept : _} (held : queue.held worker = some kept) :
            place kept ≠ place entry := ((sound.held_behind held).trans_lt behind).ne
        rcases update_eq_some.mp held with ⟨here, this⟩ | ⟨-, old⟩ <;>
          rcases update_eq_some.mp heldThird with ⟨there, that⟩ | ⟨-, oldThird⟩
        · exact here.trans there.symm
        · cases this
          exact absurd same.symm (before oldThird)
        · cases that
          exact absurd same (before old)
        · exact sound.held_apart old oldThird same
  | drop worker =>
      refine { sound with held_queued := ?_, held_behind := ?_, held_apart := ?_ }
      · intro other kept held
        exact sound.held_queued (of_update_none held).2
      · intro other kept held
        exact sound.held_behind (of_update_none held).2
      · intro other third kept last held heldThird
        exact sound.held_apart (of_update_none held).2 (of_update_none heldThird).2
  | @answer worker entry held =>
      refine {
        found_queued := ?_
        found_beyond := sound.found_beyond
        found_alone := sound.found_alone
        held_queued := ?_
        held_behind := ?_
        held_apart := ?_ }
      · intro other seen found
        exact ⟨sound.found_queued found, sound.held_ne_found held found⟩
      · intro other kept heldOther
        obtain ⟨different, old⟩ := of_update_none heldOther
        refine ⟨sound.held_queued old, ?_⟩
        rintro rfl
        exact different (sound.held_apart old held rfl)
      · intro other kept heldOther
        exact sound.held_behind (of_update_none heldOther).2
      · intro other third kept last heldOther heldThird
        exact sound.held_apart (of_update_none heldOther).2 (of_update_none heldThird).2
  | reset =>
      constructor <;> intros <;> contradiction

/-! ## What orderly steps keep -/

/-- **Steps in order keep it**, as long as every entry lies beyond the origin. -/
theorem Orderly.step (orderly : Orderly place queue) (sound : Sound place queue)
    (positive : ∀ entry ∈ queue.queued, origin < place entry)
    (step : Step place origin queue label next) (inOrder : InOrder place queue label) :
    Orderly place next := by
  cases step with
  | @insert entry absent =>
      refine ⟨?_, ?_, ?_⟩
      · rintro first second (rfl | queued) (rfl | other) same
        · rfl
        · exact absurd same.symm (inOrder.apart rfl other)
        · exact absurd same (inOrder.apart rfl queued)
        · exact orderly.apart queued other same
      · rintro worker seen other found (rfl | queued) beyond
        · exact (inOrder.afterFound rfl found).le
        · exact orderly.first found queued beyond
      · rintro other (rfl | queued)
        · exact .inl (inOrder.beyond rfl)
        · exact orderly.pending queued
  | find queued beyond first alone =>
      refine { orderly with first := ?_ }
      intro other seen entry found held after
      rcases update_eq_some.mp found with ⟨-, same⟩ | ⟨-, found⟩
      · exact Option.some_inj.mp same ▸ first entry held after
      · simp [alone other] at found
  | @claim worker entry found free =>
      refine { apart := orderly.apart, first := ?_, pending := ?_ }
      · intro other seen kept still
        obtain ⟨different, also⟩ := of_update_none still
        exact absurd (sound.found_alone also found) different
      · intro other queued
        rcases orderly.pending queued with beyond | ⟨holder, held⟩
        · rcases (orderly.first found queued beyond).lt_or_eq with later | same
          · exact .inl later
          · obtain rfl := orderly.apart (sound.found_queued found) queued same
            exact .inr ⟨worker, update_eq_some.mpr (.inl ⟨rfl, rfl⟩)⟩
        · refine .inr ⟨holder, update_eq_some.mpr (.inr ⟨?_, held⟩)⟩
          rintro rfl
          simp [free] at held
  | drop worker =>
      have nothing := inOrder.keeps rfl
      rw [← nothing, Function.update_eq_self]
      exact orderly
  | @answer worker entry held =>
      refine ⟨?_, ?_, ?_⟩
      · intro first second queued other
        exact orderly.apart queued.1 other.1
      · intro other seen kept found queued
        exact orderly.first found queued.1
      · rintro other ⟨queued, different⟩
        rcases orderly.pending queued with beyond | ⟨holder, kept⟩
        · exact .inl beyond
        · refine .inr ⟨holder, update_eq_some.mpr (.inr ⟨?_, kept⟩)⟩
          rintro rfl
          exact different (Option.some_inj.mp (kept.symm.trans held))
  | reset =>
      refine ⟨orderly.apart, ?_, ?_⟩
      · intro worker seen entry found
        cases found
      · intro entry queued
        exact .inl (positive entry queued)

end CursorQueue

end HashArchive
