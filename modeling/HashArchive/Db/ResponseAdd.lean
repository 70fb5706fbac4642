import HashArchive.Db.Schema

/-!
# Storing a response

`hx_response_add` of `db.c` writes a response under its time and id, then one key
for its URL, then one key for each digest. `hxResponseAdd_eq_ok` says what a call
that succeeds has done: the three kinds of key were free and are now there, and
the value packed for the response decodes to its URL and digests.
-/

set_option autoImplicit false

namespace HashArchive.Db

open Hash Url

/-- The store of the archive. -/
abbrev Database : Type := Store Key (List Field)

/-- A transaction on the store of the archive. -/
abbrev DbTxn (α : Type) : Type := Txn Key (List Field) α

/-- The value `hx_response_add` packs, and the checks it makes on the way. -/
def timeIDToResponseValPack (res : Response) : Result (List Field) := do
  -- `0xffff + res->status` is a sum of two `int`s.
  if 0xffff + res.status > 2 ^ 31 - 1 then .error (.fault .signedOverflow) else
  let sstatus := 0xffff + res.status
  assertThat (sstatus ≥ 0)
  let digests ← packDigests res.digests HashAlgo.all
  .ok (.string res.url :: .uint64 sstatus.toNat :: .string res.type ::
    .uint64 ((res.length + 1) % 2 ^ 64) :: digests) -- UINT64_MAX -> 0

/-- The keys of the hash tables from an algorithm on. -/
def hashKeysAdd (res : Response) (id : ℕ) : List HashAlgo → DbTxn Unit
  | [] => pure ()
  | algo :: rest =>
    if (res.digests algo).length = 0 then hashKeysAdd res id rest
    else do
      Txn.call (assertThat ((res.digests algo).length ≥ hxHashIndexLen))
      Txn.kvsPut (.algoHashAndTimeID algo ((res.digests algo).take hxHashIndexLen) res.time id) []
        true
      hashKeysAdd res id rest

/-- `hx_response_add`. -/
def hxResponseAdd (res : Response) (id : ℕ) : DbTxn Unit := do
  let surt ← Txn.call (urlNormalizeSurt res.url uriMax)
  let val ← Txn.call (timeIDToResponseValPack res)
  Txn.kvsPut (.timeIDToResponse res.time id) val true
  Txn.kvsPut (.urlSurtAndTimeID surt res.time id) [] true
  hashKeysAdd res id HashAlgo.all

/-! ## The value -/

/-- What is read back of the fields before the digests. -/
theorem unpack_fields {res : Response} (positive : 0xffff + res.status ≥ 0)
    (fits : 0xffff + res.status ≤ 2 ^ 31 - 1) (digestFields : List Field) (out : Response) :
    timeIDToResponseValUnpack (.string res.url :: .uint64 (0xffff + res.status).toNat ::
        .string res.type :: .uint64 ((res.length + 1) % 2 ^ 64) :: digestFields) out =
      unpackDigests out.digests HashAlgo.all digestFields >>= fun digests => .ok { out with
        url := res.url
        status := res.status
        type := res.type
        length := res.length % 2 ^ 64
        digests := digests
        url_lt := res.url_lt
        type_lt := res.type_lt } := by
  have status : Int.bmod ((0xffff + res.status).toNat - 0xffff) (2 ^ 32) = res.status := by
    rw [Int.toNat_of_nonneg positive, add_sub_cancel_left]
    exact Int.bmod_eq_of_le (by omega) (by omega)
  have length : ((res.length + 1) % 2 ^ 64 + (2 ^ 64 - 1)) % 2 ^ 64 = res.length % 2 ^ 64 := by
    omega
  simp only [timeIDToResponseValUnpack, strlcpy_of_length_lt res.url_lt,
    strlcpy_of_length_lt res.type_lt, status, length]

/-- What packing a response gives. -/
theorem timeIDToResponseValPack_eq_ok {res : Response} {val : List Field} :
    timeIDToResponseValPack res = .ok val ↔
      (0xffff + res.status ≥ 0 ∧ 0xffff + res.status ≤ 2 ^ 31 - 1) ∧
        ∃ digestFields, packDigests res.digests HashAlgo.all = .ok digestFields ∧
          val = .string res.url :: .uint64 (0xffff + res.status).toNat :: .string res.type ::
            .uint64 ((res.length + 1) % 2 ^ 64) :: digestFields := by
  unfold timeIDToResponseValPack
  by_cases large : 0xffff + res.status > 2 ^ 31 - 1
  · rw [if_pos large]
    exact iff_of_false (by simp) fun bounds => by omega
  rw [if_neg large]
  constructor
  · intro packed
    obtain ⟨_, positive, packed⟩ := Result.bind_eq_ok.mp packed
    obtain ⟨digestFields, packedDigests, same⟩ := Result.bind_eq_ok.mp packed
    exact ⟨⟨assertThat_eq_ok.mp positive, not_lt.mp large⟩, digestFields, packedDigests,
      (Except.ok.inj same).symm⟩
  · rintro ⟨⟨positive, -⟩, digestFields, packedDigests, rfl⟩
    exact Result.bind_eq_ok.mpr ⟨(), assertThat_eq_ok.mpr positive,
      Result.bind_eq_ok.mpr ⟨digestFields, packedDigests, rfl⟩⟩

/-- **A response that was packed is read back**: its URL, status, type, length and
digests, into any slot. -/
theorem unpack_of_pack {res : Response} {val : List Field}
    (packed : timeIDToResponseValPack res = .ok val) (out : Response) :
    timeIDToResponseValUnpack val out = .ok { out with
      url := res.url
      status := res.status
      type := res.type
      length := res.length % 2 ^ 64
      digests := res.digests
      url_lt := res.url_lt
      type_lt := res.type_lt } := by
  obtain ⟨⟨positive, fits⟩, digestFields, packedDigests, rfl⟩ :=
    timeIDToResponseValPack_eq_ok.mp packed
  rw [unpack_fields positive fits, unpackDigests_of_pack packedDigests, Result.ok_bind]
  simp only [HashAlgo.mem_all, if_true]

/-- A response that passes the checks of `hx_response_add`: its URL has a SURT, its
status is one that is stored as a positive number, and every digest is empty or of a
length that the index and the algorithm allow. -/
structure Response.WellFormed (res : Response) : Prop where
  surt : (urlNormalizeSurt res.url uriMax).isOk = true
  status : 0 ≤ 0xffff + res.status ∧ 0xffff + res.status ≤ 2 ^ 31 - 1
  digests : ∀ algo, res.digests algo = [] ∨
    hxHashIndexLen ≤ (res.digests algo).length ∧ (res.digests algo).length ≤ algo.digestLen

instance (res : Response) : Decidable res.WellFormed :=
  decidable_of_iff ((urlNormalizeSurt res.url uriMax).isOk = true ∧
    (0 ≤ 0xffff + res.status ∧ 0xffff + res.status ≤ 2 ^ 31 - 1) ∧
    ∀ algo, res.digests algo = [] ∨
      hxHashIndexLen ≤ (res.digests algo).length ∧ (res.digests algo).length ≤ algo.digestLen)
    ⟨fun ⟨surt, status, digests⟩ => ⟨surt, status, digests⟩,
      fun ⟨surt, status, digests⟩ => ⟨surt, status, digests⟩⟩

theorem Response.WellFormed.normalized {res : Response} (wellFormed : res.WellFormed) :
    ∃ surt, urlNormalizeSurt res.url uriMax = .ok surt := by
  have isOk := wellFormed.surt
  cases outcome : urlNormalizeSurt res.url uriMax with
  | ok surt => exact ⟨surt, rfl⟩
  | error failure =>
      rw [outcome] at isOk
      cases isOk

/-- It is packed. -/
theorem Response.WellFormed.packed {res : Response} (wellFormed : res.WellFormed) :
    ∃ val, timeIDToResponseValPack res = .ok val := by
  have short (algo : HashAlgo) : (res.digests algo).length ≤ algo.digestLen := by
    rcases wellFormed.digests algo with empty | ⟨-, le⟩
    · rw [empty]
      exact Nat.zero_le _
    · exact le
  obtain ⟨fields, packed⟩ := exists_packDigests HashAlgo.all short
  exact ⟨_, timeIDToResponseValPack_eq_ok.mpr ⟨wellFormed.status, fields, packed, rfl⟩⟩

/-! ## Older records -/

/-- A value with the digests of the first `count` algorithms only, as it was stored
when there were no others. -/
def firstDigests (count : ℕ) (val : List Field) : List Field := val.take (4 + 2 * count)

/-- **A record decodes to the response it was packed from**, and with the digests of the
first algorithms only it decodes to the response without the other digests. -/
theorem record_decodes {res : Response}
    (status : -0xffff ≤ res.status ∧ res.status ≤ 2 ^ 31 - 1 - 0xffff)
    (length : res.length < 2 ^ 64)
    (digests : ∀ algo, (res.digests algo).length ≤ algo.digestLen) :
    ∃ val, timeIDToResponseValPack res = .ok val ∧
      (∀ out, timeIDToResponseValUnpack val out = .ok { out with
        url := res.url
        status := res.status
        type := res.type
        length := res.length
        digests := res.digests
        url_lt := res.url_lt
        type_lt := res.type_lt }) ∧
      ∀ count ≤ HashAlgo.all.length, ∀ out,
        timeIDToResponseValUnpack (firstDigests count val) out = .ok { out with
          url := res.url
          status := res.status
          type := res.type
          length := res.length
          digests := fun algo => if algo.index < count then res.digests algo else []
          url_lt := res.url_lt
          type_lt := res.type_lt } := by
  obtain ⟨fields, packed⟩ := exists_packDigests HashAlgo.all digests
  have positive : 0xffff + res.status ≥ 0 := by omega
  have fits : 0xffff + res.status ≤ 2 ^ 31 - 1 := by omega
  have whole := timeIDToResponseValPack_eq_ok.mpr ⟨⟨positive, fits⟩, fields, packed, rfl⟩
  refine ⟨_, whole, ?_, ?_⟩
  · intro out
    rw [unpack_of_pack whole, Nat.mod_eq_of_lt length]
  · intro count known out
    have first : firstDigests count (.string res.url :: .uint64 (0xffff + res.status).toNat ::
        .string res.type :: .uint64 ((res.length + 1) % 2 ^ 64) :: fields) =
      .string res.url :: .uint64 (0xffff + res.status).toNat ::
        .string res.type :: .uint64 ((res.length + 1) % 2 ^ 64) :: fields.take (2 * count) := by
      rw [firstDigests, Nat.add_comm]
      rfl
    rw [first, unpack_fields positive fits, unpackDigests_of_pack_take _ _ (by decide) packed,
      Result.ok_bind, Nat.mod_eq_of_lt length]
    simp only [HashAlgo.mem_all, if_true, HashAlgo.mem_take_all_iff]

/-- A response of the least status and of unknown length, with one digest. -/
def Response.extreme : Response := { Response.blank with
  status := -0xffff
  length := 2 ^ 64 - 1
  digests := fun algo => if algo = .sha1 then List.replicate 20 0xff else [] }

theorem record_decodes_extreme : ∃ val, timeIDToResponseValPack Response.extreme = .ok val ∧
    timeIDToResponseValUnpack val Response.blank = .ok Response.extreme ∧
    timeIDToResponseValUnpack (firstDigests 1 val) Response.blank =
      .ok { Response.blank with status := -0xffff, length := 2 ^ 64 - 1 } := by
  obtain ⟨val, packed, decodes, older⟩ :=
    @record_decodes Response.extreme (by decide) (by decide) (by decide)
  have noDigest : (fun algo : HashAlgo => if algo.index < 1 then Response.extreme.digests algo
      else []) = fun _ => [] := by
    funext algo
    cases algo <;> rfl
  refine ⟨val, packed, decodes Response.blank, ?_⟩
  rw [older 1 (by decide) Response.blank, noDigest]
  rfl

/-! ## The keys -/

/-- The key of a digest of a response. -/
def hashKey (res : Response) (id : ℕ) (algo : HashAlgo) : Key :=
  .algoHashAndTimeID algo ((res.digests algo).take hxHashIndexLen) res.time id

/-- A key is that of a digest that is not empty. -/
def IsHashKey (res : Response) (id : ℕ) (algos : List HashAlgo) (key : Key) : Prop :=
  ∃ algo ∈ algos, res.digests algo ≠ [] ∧ key = hashKey res id algo

theorem isHashKey_cons {res : Response} {id : ℕ} {algo : HashAlgo} {rest : List HashAlgo}
    {key : Key} : IsHashKey res id (algo :: rest) key ↔
      (res.digests algo ≠ [] ∧ key = hashKey res id algo) ∨ IsHashKey res id rest key := by
  simp [IsHashKey]

/-- **What adding the hash keys does**: it writes the keys of the digests that are
not empty, each of which has the bytes the index needs. -/
theorem hashKeysAdd_eq_ok {res : Response} {id : ℕ} {algos : List HashAlgo} {db after : Database}
    {done : Unit} (added : hashKeysAdd res id algos db = (.ok done, after)) :
    (∀ algo ∈ algos, res.digests algo ≠ [] → hxHashIndexLen ≤ (res.digests algo).length) ∧
      (∀ key, IsHashKey res id algos key → after.lookup key = some []) ∧
      ∀ key, ¬ IsHashKey res id algos key → after.lookup key = db.lookup key := by
  induction algos generalizing db with
  | nil =>
      cases added
      exact ⟨by simp, fun key ⟨_, member, _⟩ => absurd member (by simp), fun key _ => rfl⟩
  | cons algo rest ih =>
      by_cases empty : res.digests algo = []
      · rw [hashKeysAdd, if_pos (by simp [empty])] at added
        obtain ⟨long, written, kept⟩ := ih added
        simp only [isHashKey_cons, empty, ne_eq, not_true_eq_false, false_and, false_or,
          List.forall_mem_cons, false_implies, true_and]
        exact ⟨long, written, kept⟩
      · rw [hashKeysAdd, if_neg (by simpa using empty)] at added
        obtain ⟨_, longEnough, added⟩ := Txn.call_bind_eq_ok.mp added
        obtain ⟨-, added⟩ := Txn.put_bind_eq_ok.mp added
        obtain ⟨long, written, kept⟩ := ih added
        refine ⟨List.forall_mem_cons.mpr ⟨fun _ => assertThat_eq_ok.mp longEnough, long⟩, ?_, ?_⟩
        · intro key isKey
          by_cases later : IsHashKey res id rest key
          · exact written key later
          · obtain ⟨-, rfl⟩ := (isHashKey_cons.mp isKey).resolve_right later
            rw [kept _ later]
            exact Finmap.lookup_insert _
        · intro key notKey
          rw [isHashKey_cons, not_or] at notKey
          rw [kept key notKey.2]
          exact Finmap.lookup_insert_of_ne _ fun same => notKey.1 ⟨empty, same⟩

/-- **What a call that succeeds has done.** -/
structure Added (res : Response) (id : ℕ) (db after : Database) (surt : Str)
    (val : List Field) : Prop where
  normalized : urlNormalizeSurt res.url uriMax = .ok surt
  packed : timeIDToResponseValPack res = .ok val
  fresh : Key.timeIDToResponse res.time id ∉ db
  long : ∀ algo, res.digests algo ≠ [] → hxHashIndexLen ≤ (res.digests algo).length
  response : after.lookup (.timeIDToResponse res.time id) = some val
  urlKey : after.lookup (.urlSurtAndTimeID surt res.time id) = some []
  hashKeys : ∀ key, IsHashKey res id HashAlgo.all key → after.lookup key = some []
  kept : ∀ key, key ≠ .timeIDToResponse res.time id → key ≠ .urlSurtAndTimeID surt res.time id →
    ¬ IsHashKey res id HashAlgo.all key → after.lookup key = db.lookup key

theorem hxResponseAdd_eq_ok {res : Response} {id : ℕ} {db after : Database} {done : Unit}
    (added : hxResponseAdd res id db = (.ok done, after)) :
    ∃ surt val, Added res id db after surt val := by
  obtain ⟨surt, normalized, added⟩ := Txn.call_bind_eq_ok.mp added
  obtain ⟨val, packed, added⟩ := Txn.call_bind_eq_ok.mp added
  obtain ⟨fresh, added⟩ := Txn.put_bind_eq_ok.mp added
  obtain ⟨-, added⟩ := Txn.put_bind_eq_ok.mp added
  obtain ⟨long, written, kept⟩ := hashKeysAdd_eq_ok added
  have noResponse : ¬ IsHashKey res id HashAlgo.all (.timeIDToResponse res.time id) := by
    rintro ⟨_, _, _, same⟩
    cases same
  have noUrl : ¬ IsHashKey res id HashAlgo.all (.urlSurtAndTimeID surt res.time id) := by
    rintro ⟨_, _, _, same⟩
    cases same
  refine ⟨surt, val, normalized, packed, fresh rfl, fun algo => long algo algo.mem_all, ?_, ?_,
    written, ?_⟩
  · rw [kept _ noResponse, Finmap.lookup_insert_of_ne _ (by simp), Finmap.lookup_insert]
  · rw [kept _ noUrl, Finmap.lookup_insert]
  · intro key notResponse notUrl notHash
    rw [kept key notHash, Finmap.lookup_insert_of_ne _ notUrl,
      Finmap.lookup_insert_of_ne _ notResponse]

end HashArchive.Db
