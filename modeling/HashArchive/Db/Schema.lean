import HashArchive.Foundations.Transaction
import HashArchive.Util.HashCodec
import HashArchive.Util.Url
import Mathlib.Data.List.Lex
import Mathlib.Data.Fintype.Pi

/-!
# The tables of the archive

The keys and values that `db.h` packs. A key is one of five kinds, one for each
table; `Key.fields` lists what is bound for it, the number of its table first,
and the order of the keys is the order of these lists, field by field. The store
is assumed to keep that order and to give back the fields that were bound.

A response is packed into the value of its table and read back by
`timeIDToResponseValUnpack`.
-/

set_option autoImplicit false

namespace HashArchive.Db

open Hash

/-! ## Fields -/

/-- What `kvs_bind_uint64`, `kvs_bind_string` and `kvs_bind_blob` bind. -/
inductive Field where
  | uint64 (number : ℕ)
  | string (text : Str)
  | blob (bytes : List UInt8)
deriving DecidableEq, Repr

namespace Field

/-- The numbers by which fields are compared: their kind, then their content. -/
def rank : Field → List ℕ
  | uint64 number => [0, number]
  | string text => 1 :: text.map Char.toNat
  | blob bytes => 2 :: bytes.map UInt8.toNat

theorem rank_injective : Function.Injective rank := by
  intro first second same
  cases first <;> cases second <;> simp [rank] at same
  case uint64.uint64 => rw [same]
  case string.string =>
    rw [List.map_injective_iff.mpr (fun _ _ equal => Char.toNat_inj.mp equal) same]
  case blob.blob =>
    rw [List.map_injective_iff.mpr (fun _ _ equal => UInt8.toNat_inj.mp equal) same]

end Field

/-! ## Keys -/

/-- The keys of the five tables. -/
inductive Key where
  | timeIDToResponse (time id : ℕ)
  | urlSurtAndTimeID (surt : Str) (time id : ℕ)
  | timeIDQueuedURLAndClient (time id : ℕ) (url client : Str)
  | queuedURLSurtAndTimeID (surt : Str) (time id : ℕ)
  | algoHashAndTimeID (algo : HashAlgo) (hash : List UInt8) (time id : ℕ)
deriving DecidableEq, Repr

/-- `HX_HASH_INDEX_LEN`. -/
def hxHashIndexLen : ℕ := 8

namespace Key

/-- What the `KeyPack` macros bind. -/
def fields : Key → List Field
  | timeIDToResponse time id => [.uint64 20, .uint64 time, .uint64 id]
  | urlSurtAndTimeID surt time id => [.uint64 21, .string surt, .uint64 time, .uint64 id]
  | timeIDQueuedURLAndClient time id url client =>
    [.uint64 30, .uint64 time, .uint64 id, .string url, .string client]
  | queuedURLSurtAndTimeID surt time id => [.uint64 31, .string surt, .uint64 time, .uint64 id]
  | algoHashAndTimeID algo hash time id =>
    [.uint64 (50 + algo.index), .blob hash, .uint64 time, .uint64 id]

/-- The numbers by which keys are compared, field by field. -/
def rank (key : Key) : List (List ℕ) := key.fields.map Field.rank

theorem fields_injective : Function.Injective fields := by
  intro first second same
  cases first <;> cases second <;> simp [fields] at same
  case algoHashAndTimeID.algoHashAndTimeID =>
    obtain ⟨index, rfl, rfl, rfl⟩ := same
    rw [HashAlgo.index_injective index]
  all_goals simp_all

theorem rank_injective : Function.Injective rank := fun _ _ same =>
  fields_injective (List.map_injective_iff.mpr Field.rank_injective same)

instance : LinearOrder Key := LinearOrder.lift' rank rank_injective

theorem lt_iff_rank_lt {first second : Key} : first < second ↔ first.rank < second.rank := Iff.rfl

/-- The keys of one SURT are ordered by time and id. -/
theorem urlSurtAndTimeID_lt_iff {surt : Str} {time id otherTime otherId : ℕ} :
    urlSurtAndTimeID surt time id < urlSurtAndTimeID surt otherTime otherId ↔
      time < otherTime ∨ time = otherTime ∧ id < otherId := by
  rw [lt_iff_rank_lt]
  simp [rank, fields, Field.rank, List.cons_lt_cons_iff]

end Key

/-! ## Unpacking -/

/-- `HXURLSurtAndTimeIDKeyUnpack`. -/
def urlSurtAndTimeIDKeyUnpack : Key → Result (Str × ℕ × ℕ)
  | .urlSurtAndTimeID surt time id => .ok (surt, time, id)
  | _ => .error (.fault .assertion)

/-- `HXAlgoHashAndTimeIDKeyUnpack`. -/
def algoHashAndTimeIDKeyUnpack : Key → Result (HashAlgo × List UInt8 × ℕ × ℕ)
  | .algoHashAndTimeID algo hash time id => .ok (algo, hash, time, id)
  | _ => .error (.fault .assertion)

/-! ## Ranges -/

/-- The fields begin with those bound for the lower end of a range; of a blob at
the end only the bytes bound have to agree. -/
def bindsFirst : List Field → List Field → Bool
  | [], _ => true
  | [.blob bytes], .blob held :: _ => bytes.isPrefixOf held
  | bound :: min, field :: fields => bound == field && bindsFirst min fields
  | _ :: _, [] => false

/-- The keys between the fields of `min` and `kvs_range_genmax`. -/
def rangeOf (min : List Field) (key : Key) : Prop := bindsFirst min key.fields = true

instance (min : List Field) : DecidablePred (rangeOf min) := fun _ => inferInstanceAs (Decidable (_ = _))

/-- `HXTimeIDToResponseRange0`. -/
def timeIDToResponseRange0 : Key → Prop := rangeOf [.uint64 20]

/-- `HXURLSurtAndTimeIDRange1`. -/
def urlSurtAndTimeIDRange1 (surt : Str) : Key → Prop := rangeOf [.uint64 21, .string surt]

/-- `HXTimeIDQueuedURLAndClientRange0`. -/
def timeIDQueuedURLAndClientRange0 : Key → Prop := rangeOf [.uint64 30]

/-- `HXQueuedURLSurtAndTimeIDRange1`. -/
def queuedURLSurtAndTimeIDRange1 (surt : Str) : Key → Prop := rangeOf [.uint64 31, .string surt]

/-- `HXAlgoHashAndTimeIDRange2`. -/
def algoHashAndTimeIDRange2 (algo : HashAlgo) (hash : List UInt8) : Key → Prop :=
  rangeOf [.uint64 (50 + algo.index), .blob (hash.take (min hxHashIndexLen hash.length))]

section Ranges

variable (surt : Str) (algo : HashAlgo) (hash : List UInt8)

instance : DecidablePred timeIDToResponseRange0 := inferInstanceAs (DecidablePred (rangeOf _))
instance : DecidablePred (urlSurtAndTimeIDRange1 surt) :=
  inferInstanceAs (DecidablePred (rangeOf _))
instance : DecidablePred timeIDQueuedURLAndClientRange0 :=
  inferInstanceAs (DecidablePred (rangeOf _))
instance : DecidablePred (queuedURLSurtAndTimeIDRange1 surt) :=
  inferInstanceAs (DecidablePred (rangeOf _))
instance : DecidablePred (algoHashAndTimeIDRange2 algo hash) :=
  inferInstanceAs (DecidablePred (rangeOf _))

variable {surt algo hash} {key : Key}

theorem urlSurtAndTimeIDRange1_iff :
    urlSurtAndTimeIDRange1 surt key ↔ ∃ time id, key = .urlSurtAndTimeID surt time id := by
  cases key with
  | urlSurtAndTimeID other time id =>
      simp [urlSurtAndTimeIDRange1, rangeOf, bindsFirst, Key.fields]
      exact eq_comm
  | _ => simp [urlSurtAndTimeIDRange1, rangeOf, bindsFirst, Key.fields]

theorem timeIDQueuedURLAndClientRange0_iff :
    timeIDQueuedURLAndClientRange0 key ↔
      ∃ time id url client, key = .timeIDQueuedURLAndClient time id url client := by
  cases key with
  | algoHashAndTimeID algo hash time id =>
      simp [timeIDQueuedURLAndClientRange0, rangeOf, bindsFirst, Key.fields]
      omega
  | _ => simp [timeIDQueuedURLAndClientRange0, rangeOf, bindsFirst, Key.fields]

theorem queuedURLSurtAndTimeIDRange1_iff :
    queuedURLSurtAndTimeIDRange1 surt key ↔
      ∃ time id, key = .queuedURLSurtAndTimeID surt time id := by
  cases key with
  | queuedURLSurtAndTimeID other time id =>
      simp [queuedURLSurtAndTimeIDRange1, rangeOf, bindsFirst, Key.fields]
      exact eq_comm
  | _ => simp [queuedURLSurtAndTimeIDRange1, rangeOf, bindsFirst, Key.fields]

theorem algoHashAndTimeIDRange2_iff :
    algoHashAndTimeIDRange2 algo hash key ↔ ∃ held time id,
      key = .algoHashAndTimeID algo held time id ∧
        hash.take (min hxHashIndexLen hash.length) <+: held := by
  cases key with
  | algoHashAndTimeID other held time id =>
      simp only [algoHashAndTimeIDRange2, rangeOf, bindsFirst, Key.fields, Bool.and_eq_true,
        beq_iff_eq, Field.uint64.injEq, Nat.add_left_cancel_iff, List.isPrefixOf_iff_prefix]
      constructor
      · rintro ⟨same, agrees⟩
        exact ⟨held, time, id, by rw [HashAlgo.index_injective same], agrees⟩
      · rintro ⟨_, _, _, same, agrees⟩
        cases same
        exact ⟨rfl, agrees⟩
  | _ => simp [algoHashAndTimeIDRange2, rangeOf, bindsFirst, Key.fields]

end Ranges

/-! ## Responses -/

theorem uriMax_pos : 0 < uriMax := by decide

theorem typeMax_pos : 0 < typeMax := by decide

/-- `struct response`. The strings fit the arrays that hold them; `next` and
`prev` are positions in the array the response is in. -/
structure Response where
  time : ℕ
  id : ℕ
  url : Str
  status : ℤ
  type : Str
  length : ℕ
  digests : HashAlgo → List UInt8
  next : Option ℕ
  prev : Option ℕ
  flags : ℕ
  url_lt : url.length < uriMax
  type_lt : type.length < typeMax
deriving DecidableEq

/-- A slot with nothing in it. -/
def Response.blank : Response where
  time := 0
  id := 0
  url := []
  status := 0
  type := []
  length := 0
  digests := fun _ => []
  next := none
  prev := none
  flags := 0
  url_lt := uriMax_pos
  type_lt := typeMax_pos

/-- What `hx_response_add` binds for the digests from an algorithm on. -/
def packDigests (digests : HashAlgo → List UInt8) : List HashAlgo → Result (List Field)
  | [] => .ok []
  | algo :: rest => do
    let len := (digests algo).length
    assertThat (len ≤ algo.digestLen)
    let fields ← packDigests digests rest
    .ok (.uint64 len :: .blob (digests algo) :: fields)

/-- The digests of `HXTimeIDToResponseValUnpack` from an algorithm on. -/
def unpackDigests (digests : HashAlgo → List UInt8) :
    List HashAlgo → List Field → Result (HashAlgo → List UInt8)
  | [], _ => .ok digests
  | algo :: rest, [] => unpackDigests (Function.update digests algo []) rest []
  | algo :: rest, .uint64 len :: .blob buf :: val => do
    assertThat (len ≤ algo.digestLen)
    unpackDigests (Function.update digests algo (buf.take len)) rest val
  | _ :: _, _ => .error (.fault .assertion)

/-- `HXTimeIDToResponseValUnpack`. -/
def timeIDToResponseValUnpack (val : List Field) (out : Response) : Result Response :=
  match val with
  | .string url :: .uint64 status :: .string type :: .uint64 length :: val => do
    let digests ← unpackDigests out.digests HashAlgo.all val
    .ok { out with
      url := strlcpy url uriMax
      status := Int.bmod (status - 0xffff) (2 ^ 32)
      type := strlcpy type typeMax
      length := (length + (2 ^ 64 - 1)) % 2 ^ 64 -- 0 -> UINT64_MAX
      digests := digests
      url_lt := length_strlcpy_lt uriMax_pos
      type_lt := length_strlcpy_lt typeMax_pos }
  | _ => .error (.fault .assertion)

/-- Digests that are not too long are packed. -/
theorem exists_packDigests {digests : HashAlgo → List UInt8} (algos : List HashAlgo)
    (short : ∀ algo, (digests algo).length ≤ algo.digestLen) :
    ∃ fields, packDigests digests algos = .ok fields := by
  induction algos with
  | nil => exact ⟨[], rfl⟩
  | cons algo rest ih =>
      obtain ⟨fields, packed⟩ := ih
      refine ⟨.uint64 (digests algo).length :: .blob (digests algo) :: fields, ?_⟩
      rw [packDigests, assertThat, if_pos (short algo), packed]
      rfl

/-- Digests that were packed fit. -/
theorem length_le_of_packDigests {digests : HashAlgo → List UInt8} {algos : List HashAlgo}
    {fields : List Field} (packed : packDigests digests algos = .ok fields) :
    ∀ algo ∈ algos, (digests algo).length ≤ algo.digestLen := by
  induction algos generalizing fields with
  | nil => exact fun _ member => nomatch member
  | cons first algos ih =>
      obtain ⟨⟨⟩, short, packed⟩ := Result.bind_eq_ok.mp packed
      obtain ⟨rest, packed, -⟩ := Result.bind_eq_ok.mp packed
      exact List.forall_mem_cons.mpr ⟨assertThat_eq_ok.mp short, ih packed⟩

/-- Digests that were packed are read back. -/
theorem unpackDigests_of_pack {digests start : HashAlgo → List UInt8} {algos : List HashAlgo}
    {fields : List Field} (packed : packDigests digests algos = .ok fields) :
    unpackDigests start algos fields =
      .ok fun algo => if algo ∈ algos then digests algo else start algo := by
  induction algos generalizing start fields with
  | nil => simp [unpackDigests]
  | cons algo rest ih =>
      obtain ⟨_, short, packed⟩ := Result.bind_eq_ok.mp packed
      obtain ⟨tail, packedTail, same⟩ := Result.bind_eq_ok.mp packed
      cases same
      rw [unpackDigests, short, Result.ok_bind, ih packedTail, List.take_length]
      congr 1
      funext other
      by_cases later : other ∈ rest
      · simp [later]
      · by_cases this : other = algo
        · simp [this]
        · simp [later, this]

/-- Of the digests that were packed, the first are read back and the others are empty. -/
theorem unpackDigests_of_pack_take {digests : HashAlgo → List UInt8}
    (start : HashAlgo → List UInt8) {algos : List HashAlgo} {fields : List Field} (count : ℕ)
    (distinct : algos.Nodup)
    (packed : packDigests digests algos = .ok fields) :
    unpackDigests start algos (fields.take (2 * count)) = .ok fun algo =>
      if algo ∈ algos then (if algo ∈ algos.take count then digests algo else []) else start algo := by
  induction algos generalizing start fields count with
  | nil =>
      cases packed
      simp [unpackDigests]
  | cons algo rest ih =>
      obtain ⟨notLater, distinct⟩ := List.nodup_cons.mp distinct
      obtain ⟨_, short, packed⟩ := Result.bind_eq_ok.mp packed
      obtain ⟨tail, packedTail, same⟩ := Result.bind_eq_ok.mp packed
      cases same
      cases count with
      | zero =>
          have nothing := ih (Function.update start algo []) 0 distinct packedTail
          rw [Nat.mul_zero, List.take_zero] at nothing ⊢
          rw [unpackDigests, nothing]
          congr 1
          funext other
          by_cases this : other = algo <;> simp [this]
      | succ count =>
          rw [show 2 * (count + 1) = 2 * count + 1 + 1 by omega, List.take_succ_cons,
            List.take_succ_cons, unpackDigests, short, Result.ok_bind, ih _ _ distinct packedTail,
            List.take_length]
          congr 1
          funext other
          by_cases this : other = algo
          · subst this
            simp [notLater]
          · simp [this]

end HashArchive.Db
