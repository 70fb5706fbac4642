import HashArchive.Foundations.CProgram
import HashArchive.Foundations.OrderedStore

/-!
# Transactions on an ordered store

A transaction is a computation that reads and writes a private copy of the store.
An operation that fails ends the computation, with the writes made so far still
in the copy; `commit` keeps the copy when the computation succeeds and drops it
otherwise.

The operations are those of the key-value store: `kvsPut`, `kvsDel` and `kvsGet`
of one key, and the searches `kvsFirstr` and `kvsLastr` for the first and the
last key of a range. `bind_eq_ok` takes a successful transaction apart, one
operation at a time, and one lemma for each operation says what its success
means for the operations after it.
-/

set_option autoImplicit false

namespace HashArchive

/-- A computation on the private copy of a store. -/
def Txn (Key Value α : Type) : Type := Store Key Value → Result α × Store Key Value

namespace Txn

variable {Key Value α β : Type}

instance : Monad (Txn Key Value) where
  pure value := fun store => (.ok value, store)
  bind first next := fun store =>
    match first store with
    | (.ok value, between) => next value between
    | (.error failure, between) => (.error failure, between)

/-- A call that does not touch the store. -/
def call (outcome : Result α) : Txn Key Value α := fun store => (outcome, store)

@[simp] theorem pure_apply (value : α) (store : Store Key Value) :
    (pure value : Txn Key Value α) store = (.ok value, store) := rfl

@[simp] theorem call_apply (outcome : Result α) (store : Store Key Value) :
    (call outcome : Txn Key Value α) store = (outcome, store) := rfl

theorem bind_of_ok {first : Txn Key Value α} {next : α → Txn Key Value β}
    {store between : Store Key Value} {value : α} (done : first store = (.ok value, between)) :
    (first >>= next) store = next value between := by
  show (match first store with
    | (.ok value, between) => next value between
    | (.error failure, between) => (.error failure, between)) = next value between
  rw [done]

theorem bind_of_error {first : Txn Key Value α} {next : α → Txn Key Value β}
    {store between : Store Key Value} {failure : Failure}
    (failed : first store = (.error failure, between)) :
    (first >>= next) store = (.error failure, between) := by
  show (match first store with
    | (.ok value, between) => next value between
    | (.error failure, between) => (.error failure, between)) = (.error failure, between)
  rw [failed]

/-- An assertion that holds, and what follows it. -/
theorem assert_bind {condition : Prop} [Decidable condition] (holds : condition)
    {next : Unit → Txn Key Value β} {store : Store Key Value} :
    (call (assertThat condition) >>= next) store = next () store :=
  bind_of_ok (by rw [call_apply, assertThat, if_pos holds])

/-- An assertion that fails ends the transaction. -/
theorem assert_bind_of_not {condition : Prop} [Decidable condition] (fails : ¬ condition)
    {next : Unit → Txn Key Value β} {store : Store Key Value} :
    (call (assertThat condition) >>= next) store = (.error (.fault .assertion), store) :=
  bind_of_error (by rw [call_apply, assertThat, if_neg fails])

/-- A sequence of two operations succeeds when both do. -/
theorem bind_eq_ok {first : Txn Key Value α} {next : α → Txn Key Value β}
    {store after : Store Key Value} {value : β} :
    (first >>= next) store = (.ok value, after) ↔
      ∃ middle between, first store = (.ok middle, between) ∧
        next middle between = (.ok value, after) := by
  cases outcome : first store with
  | mk result between =>
      cases result with
      | error failure => simp [bind_of_error outcome]
      | ok middle => simp [bind_of_ok outcome]

/-- A call that does not touch the store, and what follows it. -/
theorem call_bind_eq_ok {outcome : Result α} {next : α → Txn Key Value β}
    {store after : Store Key Value} {value : β} :
    (call outcome >>= next) store = (.ok value, after) ↔
      ∃ middle, outcome = .ok middle ∧ next middle store = (.ok value, after) := by
  cases outcome with
  | error failure => simp [bind_of_error (call_apply _ _)]
  | ok middle => simp [bind_of_ok (call_apply _ _)]

/-- The outcome of a transaction and the store it leaves: the copy when it
succeeds, the store as it was otherwise. -/
def commit (txn : Txn Key Value α) (store : Store Key Value) : Result α × Store Key Value :=
  match txn store with
  | (.ok value, copy) => (.ok value, copy)
  | (.error failure, _) => (.error failure, store)

theorem commit_of_ok {txn : Txn Key Value α} {store copy : Store Key Value} {value : α}
    (done : txn store = (.ok value, copy)) : commit txn store = (.ok value, copy) := by
  rw [commit, done]

theorem commit_of_error {txn : Txn Key Value α} {store copy : Store Key Value} {failure : Failure}
    (failed : txn store = (.error failure, copy)) : commit txn store = (.error failure, store) := by
  rw [commit, failed]

/-! ## Operations -/

section Operations

variable [DecidableEq Key]

/-- `kvs_put`. With `KVS_NOOVERWRITE` a key that exists is an error. -/
def kvsPut (key : Key) (value : Value) (noOverwrite : Bool) : Txn Key Value Unit := fun store =>
  if noOverwrite ∧ key ∈ store then (.error (.code .kvsKeyexist), store)
  else (.ok (), store.insert key value)

/-- `kvs_del`. Whether deleting a key that does not exist is an error depends on
the store underneath. -/
def kvsDel (strict : Bool) (key : Key) : Txn Key Value Unit := fun store =>
  if strict ∧ key ∉ store then (.error (.code .kvsNotfound), store)
  else (.ok (), store.erase key)

/-- `kvs_get`. -/
def kvsGet (key : Key) : Txn Key Value Value := fun store =>
  match store.lookup key with
  | some value => (.ok value, store)
  | none => (.error (.code .kvsNotfound), store)

variable {key : Key} {value : Value} {store after : Store Key Value} {result : β}

/-- A write, and what follows it. -/
theorem put_bind_eq_ok {noOverwrite : Bool} {next : Unit → Txn Key Value β} :
    (kvsPut key value noOverwrite >>= next) store = (.ok result, after) ↔
      (noOverwrite = true → key ∉ store) ∧ next () (store.insert key value) = (.ok result, after) := by
  by_cases refused : noOverwrite = true ∧ key ∈ store
  · have failed : kvsPut key value noOverwrite store = (.error (.code .kvsKeyexist), store) :=
      if_pos refused
    rw [bind_of_error failed]
    simp [refused]
  · have done : kvsPut key value noOverwrite store = (.ok (), store.insert key value) :=
      if_neg refused
    rw [bind_of_ok done]
    exact ⟨fun rest => ⟨not_and.mp refused, rest⟩, fun both => both.2⟩

theorem del_eq_ok {strict : Bool} {done : Unit} :
    kvsDel strict key store = (.ok done, after) ↔
      (strict = true → key ∈ store) ∧ after = store.erase key := by
  unfold kvsDel
  by_cases refused : strict = true ∧ key ∉ store
  · simp [refused]
  · rw [if_neg refused, Prod.mk.injEq]
    exact ⟨fun same => ⟨by simpa using refused, same.2.symm⟩, fun both => ⟨rfl, both.2.symm⟩⟩

/-- A deletion, and what follows it. -/
theorem del_bind_eq_ok {strict : Bool} {next : Unit → Txn Key Value β} :
    (kvsDel strict key >>= next) store = (.ok result, after) ↔
      (strict = true → key ∈ store) ∧ next () (store.erase key) = (.ok result, after) := by
  by_cases refused : strict = true ∧ key ∉ store
  · have failed : kvsDel strict key store = (.error (.code .kvsNotfound), store) := if_pos refused
    rw [bind_of_error failed]
    simp [refused]
  · have done : kvsDel strict key store = (.ok (), store.erase key) := if_neg refused
    rw [bind_of_ok done]
    exact ⟨fun rest => ⟨by simpa using refused, rest⟩, fun both => both.2⟩

end Operations

section Ranges

variable [LinearOrder Key] (range : Key → Prop) [DecidablePred range]

/-- `kvs_cursor_firstr` and `kvs_cursor_seekr` upwards; `none` is `KVS_NOTFOUND`. -/
def kvsFirstr : Txn Key Value (Option Key) := fun store => (.ok (store.firstWithin range), store)

/-- `kvs_cursor_firstr` downwards; `none` is `KVS_NOTFOUND`. -/
def kvsLastr : Txn Key Value (Option Key) := fun store => (.ok (store.lastWithin range), store)

/-- `kvs_cursor_firstr` and then `kvs_cursor_nextr` downwards, to the end. -/
def kvsKeysr : Txn Key Value (List Key) := fun store => (.ok (store.descending range), store)

/-- `kvs_cursor_seekr` upwards from a key and then `kvs_cursor_nextr`, to the end. -/
def kvsSeekKeysr (key : Key) : Txn Key Value (List Key) := fun store =>
  (.ok (store.ascending fun held => range held ∧ key ≤ held), store)

variable {range}

/-- A search upwards, and what follows it. -/
@[simp] theorem firstr_bind {next : Option Key → Txn Key Value β} {store : Store Key Value} :
    (kvsFirstr range >>= next) store = next (store.firstWithin range) store :=
  bind_of_ok rfl

/-- A search downwards, and what follows it. -/
@[simp] theorem lastr_bind {next : Option Key → Txn Key Value β} {store : Store Key Value} :
    (kvsLastr range >>= next) store = next (store.lastWithin range) store :=
  bind_of_ok rfl

/-- A walk upwards from a key, and what follows it. -/
@[simp] theorem seekKeysr_bind {key : Key} {next : List Key → Txn Key Value β}
    {store : Store Key Value} : (kvsSeekKeysr range key >>= next) store =
      next (store.ascending fun held => range held ∧ key ≤ held) store :=
  bind_of_ok rfl

/-- A walk downwards, and what follows it. -/
@[simp] theorem keysr_bind {next : List Key → Txn Key Value β} {store : Store Key Value} :
    (kvsKeysr range >>= next) store = next (store.descending range) store :=
  bind_of_ok rfl

end Ranges

end Txn

end HashArchive
