import HashArchive.Util.HashCodec
import Mathlib.Data.Nat.Bitwise

/-!
# Digests of a stream

A hasher of `util/hasher.c` has a context of the hash library for each algorithm. It is
given a text in pieces, and the digests are taken at the end.

The library is not part of the program. Its calls can fail, and a library computes a
function (`HashLibrary.Computes`) when a context that was begun and is given the pieces of
a text ends with the value of the text. A hasher then has the digests of what it was given
(`Hasher.Absorbed.hasherDigests`).
-/

set_option autoImplicit false

namespace HashArchive

/-- A negative return code as a number. -/
abbrev Rc : Type := { rc : ℤ // rc < 0 }

/-- The outcome of a call that gives a return code. -/
abbrev Call (α : Type) : Type := Except Rc α

namespace Hash

/-- `HASH_ENOMEM`. -/
def hashEnomem : Rc := ⟨-12, by decide⟩

/-- `HASHER_ALGOS_ALL`. -/
def hasherAlgosAll : ℕ := 2 ^ 64 - 1

/-- A digest of full length. -/
abbrev Digest (algo : HashAlgo) : Type :=
  { digest : List UInt8 // digest.length = algo.digestLen }

/-- The contexts of the hash library, with `_Init`, `_Update` and `_Final` for each
algorithm. -/
structure HashLibrary where
  Ctx : HashAlgo → Type
  init : (algo : HashAlgo) → Call (Ctx algo)
  update : {algo : HashAlgo} → Ctx algo → List UInt8 → Call (Ctx algo)
  final : {algo : HashAlgo} → Ctx algo → Call (Digest algo)

/-! ## The hasher -/

section EachAlgo

variable {Slot : HashAlgo → Type} (change : (algo : HashAlgo) → Slot algo → Call (Slot algo))

/-- `HASH_ALGOS(XX)`, where `XX` changes what there is for its algorithm or ends with a
return code. -/
def eachAlgo : List HashAlgo → ((algo : HashAlgo) → Slot algo) →
    Call Unit × ((algo : HashAlgo) → Slot algo)
  | [], slots => (.ok (), slots)
  | algo :: algos, slots =>
    match change algo (slots algo) with
    | .error rc => (.error rc, slots)
    | .ok slot => eachAlgo algos (Function.update slots algo slot)

end EachAlgo

variable {lib : HashLibrary}

/-- `struct hasher_s`. -/
structure Hasher (lib : HashLibrary) where
  state : (algo : HashAlgo) → Option (lib.Ctx algo)

/-- `hasher_create`. The memory says which allocations succeed: that of the hasher, and
that of each context. -/
def hasherCreate (lib : HashLibrary) (memory : Option HashAlgo → Bool) (algos : ℕ) :
    Call (Hasher lib) :=
  if memory none = false then .error hashEnomem
  else
    let created := eachAlgo (fun algo (slot : Option (lib.Ctx algo)) =>
      if algos.testBit algo.index then
        if memory (some algo) = false then .error hashEnomem
        else return some (← lib.init algo)
      else .ok slot) HashAlgo.all fun _ => none
    created.1.map fun _ => ⟨created.2⟩

/-- `hasher_update`. -/
def hasherUpdate (hasher : Hasher lib) (buf : List UInt8) : Call (Hasher lib) :=
  let updated := eachAlgo (fun algo (slot : Option (lib.Ctx algo)) =>
    match slot with
    | none => .ok none
    | some ctx => return some (← lib.update ctx buf)) HashAlgo.all hasher.state
  updated.1.map fun _ => ⟨updated.2⟩

/-- `hasher_digests`. After a failure some of the digests may be there. -/
def hasherDigests (hasher : Hasher lib) : Call Unit × (HashAlgo → List UInt8) :=
  eachAlgo (fun algo (digest : List UInt8) =>
    match hasher.state algo with
    | none => .ok digest
    | some ctx => return (← lib.final ctx).1) HashAlgo.all fun _ => []

/-! ## What each algorithm gets -/

section EachAlgo

variable {Slot : HashAlgo → Type} {change : (algo : HashAlgo) → Slot algo → Call (Slot algo)}
  {slots next : (algo : HashAlgo) → Slot algo}

theorem eachAlgo_eq_ok_iff_of_nodup {algos : List HashAlgo} (distinct : algos.Nodup) :
    eachAlgo change algos slots = (.ok (), next) ↔
      (∀ algo ∈ algos, change algo (slots algo) = .ok (next algo)) ∧
        ∀ algo ∉ algos, next algo = slots algo := by
  induction algos generalizing slots with
  | nil =>
      simp only [eachAlgo, Prod.mk.injEq, true_and, List.not_mem_nil, false_implies,
        implies_true, not_false_eq_true, forall_const]
      exact ⟨fun same algo => by rw [same], fun same => (funext same).symm⟩
  | cons first algos ih =>
      obtain ⟨absent, distinct⟩ := List.nodup_cons.mp distinct
      cases changed : change first (slots first) with
      | error rc => simp [eachAlgo, changed]
      | ok slot =>
          have others {algo : HashAlgo} (other : algo ≠ first) :
              Function.update slots first slot algo = slots algo :=
            Function.update_of_ne other slot slots
          simp only [eachAlgo, changed, ih distinct]
          constructor
          · rintro ⟨inside, outside⟩
            have own : next first = slot := by
              rw [outside first absent, Function.update_self]
            refine ⟨fun algo member => ?_, fun algo outer => ?_⟩
            · rcases List.mem_cons.mp member with rfl | member
              · rw [changed, own]
              · have other : algo ≠ first := fun same => absent (same ▸ member)
                rw [← inside algo member, others other]
            · obtain ⟨other, outer⟩ := not_or.mp (List.mem_cons.not.mp outer)
              rw [outside algo outer, others other]
          · rintro ⟨inside, outside⟩
            have own : slot = next first := by
              have changes := inside first List.mem_cons_self
              rw [changed] at changes
              exact Except.ok.inj changes
            refine ⟨fun algo member => ?_, fun algo outer => ?_⟩
            · have other : algo ≠ first := fun same => absent (same ▸ member)
              rw [others other]
              exact inside algo (List.mem_cons_of_mem _ member)
            · by_cases same : algo = first
              · subst same
                rw [Function.update_self, own]
              · rw [others same]
                exact outside algo (List.mem_cons.not.mpr (not_or.mpr ⟨same, outer⟩))

/-- The macro succeeds when it does so for each algorithm. -/
theorem eachAlgo_eq_ok_iff :
    eachAlgo change HashAlgo.all slots = (.ok (), next) ↔
      ∀ algo, change algo (slots algo) = .ok (next algo) := by
  rw [eachAlgo_eq_ok_iff_of_nodup (by decide)]
  exact ⟨fun changes algo => changes.1 algo algo.mem_all,
    fun changes => ⟨fun algo _ => changes algo, fun algo outer => absurd algo.mem_all outer⟩⟩

end EachAlgo

/-! ## A text in pieces -/

/-- **The library computes a function**: a context that was begun takes every piece of a
text and ends with the value of the text. -/
def HashLibrary.Computes (lib : HashLibrary)
    (hash : (algo : HashAlgo) → List UInt8 → Digest algo) : Prop :=
  ∀ (algo : HashAlgo) (ctx : lib.Ctx algo) (pieces : List (List UInt8)),
    lib.init algo = .ok ctx →
      (pieces.foldlM lib.update ctx >>= lib.final) = .ok (hash algo pieces.flatten)

/-- Every algorithm has a context, which was given the pieces. -/
def Hasher.Absorbed (hasher : Hasher lib) (pieces : List (List UInt8)) : Prop :=
  ∀ algo, ∃ ctx fed, lib.init algo = .ok ctx ∧ pieces.foldlM lib.update ctx = .ok fed ∧
    hasher.state algo = some fed

/-- What the macro makes of the contexts of a hasher. -/
theorem hasher_eq_ok_iff {hasher : Hasher lib}
    {change : (algo : HashAlgo) → Option (lib.Ctx algo) → Call (Option (lib.Ctx algo))}
    {slots : (algo : HashAlgo) → Option (lib.Ctx algo)} :
    ((eachAlgo change HashAlgo.all slots).1.map fun _ =>
      (⟨(eachAlgo change HashAlgo.all slots).2⟩ : Hasher lib)) = .ok hasher ↔
        ∀ algo, change algo (slots algo) = .ok (hasher.state algo) := by
  rw [← eachAlgo_eq_ok_iff]
  obtain ⟨outcome, next⟩ := eachAlgo change HashAlgo.all slots
  obtain ⟨state⟩ := hasher
  cases outcome with
  | error rc => simp [Except.map]
  | ok => simp [Except.map]

/-- A new hasher was given nothing. -/
theorem absorbed_of_hasherCreate {memory : Option HashAlgo → Bool} {hasher : Hasher lib}
    (created : hasherCreate lib memory hasherAlgosAll = .ok hasher) : hasher.Absorbed [] := by
  intro algo
  have chosen : hasherAlgosAll.testBit algo.index = true := by
    cases algo <;> decide
  unfold hasherCreate at created
  split at created
  next => cases created
  next =>
    have begun := hasher_eq_ok_iff.mp created algo
    rw [if_pos chosen] at begun
    split at begun
    next => cases begun
    next =>
      cases started : lib.init algo with
      | error rc =>
          rw [started] at begun
          cases begun
      | ok ctx =>
          rw [started] at begun
          exact ⟨ctx, ctx, rfl, rfl, (Except.ok.inj begun).symm⟩

/-- A context that was given the pieces takes another one. -/
theorem foldlM_update_append {algo : HashAlgo} {ctx fed : lib.Ctx algo}
    {pieces : List (List UInt8)} (given : pieces.foldlM lib.update ctx = .ok fed)
    (buf : List UInt8) : (pieces ++ [buf]).foldlM lib.update ctx = lib.update fed buf := by
  rw [List.foldlM_append, given]
  exact bind_pure (lib.update fed buf)

section Computes

variable {hash : (algo : HashAlgo) → List UInt8 → Digest algo} (computes : lib.Computes hash)
  {hasher : Hasher lib} {pieces : List (List UInt8)} (absorbed : hasher.Absorbed pieces)

include computes absorbed

/-- A hasher takes another piece. -/
theorem Hasher.Absorbed.hasherUpdate (buf : List UInt8) :
    ∃ next, hasherUpdate hasher buf = .ok next ∧ next.Absorbed (pieces ++ [buf]) := by
  choose ctx fed begun given held using absorbed
  have taken (algo : HashAlgo) : ∃ next, lib.update (fed algo) buf = .ok next := by
    have whole := computes algo (ctx algo) (pieces ++ [buf]) (begun algo)
    rw [foldlM_update_append (given algo)] at whole
    cases updated : lib.update (fed algo) buf with
    | error rc =>
        rw [updated] at whole
        cases whole
    | ok next => exact ⟨next, rfl⟩
  choose next updated using taken
  refine ⟨⟨fun algo => some (next algo)⟩, hasher_eq_ok_iff.mpr fun algo => ?_, fun algo => ?_⟩
  · rw [held algo]
    dsimp only
    rw [updated algo]
    rfl
  · refine ⟨ctx algo, next algo, begun algo, ?_, rfl⟩
    rw [foldlM_update_append (given algo), updated algo]

/-- **The digests of a hasher** are those of what it was given. -/
theorem Hasher.Absorbed.hasherDigests :
    hasherDigests hasher = (.ok (), fun algo => (hash algo pieces.flatten).1) := by
  apply eachAlgo_eq_ok_iff.mpr
  intro algo
  obtain ⟨ctx, fed, begun, given, held⟩ := absorbed algo
  have whole : (pieces.foldlM lib.update ctx >>= lib.final) = .ok (hash algo pieces.flatten) :=
    computes algo ctx pieces begun
  rw [given] at whole
  have final : lib.final fed = .ok (hash algo pieces.flatten) := whole
  rw [held]
  dsimp only
  rw [final]
  rfl

end Computes

end Hash

end HashArchive
