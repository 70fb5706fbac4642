import HashArchive.Db.ResponseAdd
import HashArchive.Foundations.Machine

/-!
# The response tables agree

One response is stored under several keys: its own, one for its URL, and one for
each digest. `TablesAgree` says that these keys always come together, in both
directions, for the URL and the digests that the stored value decodes to.

A call of `hx_response_add` keeps it (`TablesAgree.add`), and a call that returns
an error has written nothing, since the first key it writes decides
(`hxResponseAdd_code`). So it holds after any transactions, whether they commit
or not (`tablesAgree_of_reaches`).
-/

set_option autoImplicit false

namespace HashArchive.Db

open Hash Url

/-- The response under a time and an id decodes to a URL and digests, into any slot. -/
def Stores (db : Database) (time id : ℕ) (url : Str) (digests : HashAlgo → List UInt8) : Prop :=
  ∃ val, db.lookup (.timeIDToResponse time id) = some val ∧
    ∀ out, ∃ read, timeIDToResponseValUnpack val out = .ok read ∧ read.url = url ∧
      read.digests = digests

/-- **The three kinds of table agree.** -/
structure TablesAgree (db : Database) : Prop where
  /-- Every stored response decodes. -/
  decodes : ∀ {time id}, Key.timeIDToResponse time id ∈ db →
    ∃ url digests, Stores db time id url digests
  /-- A stored response has one key in the URL table, that of its SURT. -/
  urlKey : ∀ {time id url digests}, Stores db time id url digests →
    ∃ surt, urlNormalizeSurt url uriMax = .ok surt ∧
      ∀ other, Key.urlSurtAndTimeID other time id ∈ db ↔ other = surt
  /-- A stored response has one key in the table of every algorithm it has a digest
  for, that of the first bytes of the digest. -/
  hashKey : ∀ {time id url digests}, Stores db time id url digests →
    ∀ algo, (digests algo ≠ [] → hxHashIndexLen ≤ (digests algo).length) ∧
      ∀ hash, Key.algoHashAndTimeID algo hash time id ∈ db ↔
        digests algo ≠ [] ∧ hash = (digests algo).take hxHashIndexLen
  /-- A key of the URL table points to a stored response. -/
  urlStored : ∀ {surt time id}, Key.urlSurtAndTimeID surt time id ∈ db →
    Key.timeIDToResponse time id ∈ db
  /-- A key of a hash table points to a stored response. -/
  hashStored : ∀ {algo hash time id}, Key.algoHashAndTimeID algo hash time id ∈ db →
    Key.timeIDToResponse time id ∈ db

section Points

variable {db : Database} (agree : TablesAgree db) {time id : ℕ}
include agree

/-- A stored response has exactly one key of each kind. -/
theorem TablesAgree.keys (held : Key.timeIDToResponse time id ∈ db) :
    ∃ url digests, Stores db time id url digests ∧
      (∃ surt, urlNormalizeSurt url uriMax = .ok surt ∧
        ∀ other, Key.urlSurtAndTimeID other time id ∈ db ↔ other = surt) ∧
      ∀ algo, digests algo ≠ [] →
        ∀ hash, Key.algoHashAndTimeID algo hash time id ∈ db ↔
          hash = (digests algo).take hxHashIndexLen := by
  obtain ⟨url, digests, stores⟩ := agree.decodes held
  refine ⟨url, digests, stores, agree.urlKey stores, fun algo nonempty hash => ?_⟩
  rw [(agree.hashKey stores algo).2 hash]
  exact and_iff_right nonempty

/-- A key of the URL table points to a response whose URL has that SURT. -/
theorem TablesAgree.urlPoints {surt : Str} (held : Key.urlSurtAndTimeID surt time id ∈ db) :
    ∃ url digests, Stores db time id url digests ∧ urlNormalizeSurt url uriMax = .ok surt := by
  obtain ⟨url, digests, stores⟩ := agree.decodes (agree.urlStored held)
  obtain ⟨other, normalized, keys⟩ := agree.urlKey stores
  obtain rfl := (keys surt).mp held
  exact ⟨url, digests, stores, normalized⟩

/-- A key of a hash table points to a response whose digest starts with the bytes of
the key. -/
theorem TablesAgree.hashPoints {algo : HashAlgo} {hash : List UInt8}
    (held : Key.algoHashAndTimeID algo hash time id ∈ db) :
    ∃ url digests, Stores db time id url digests ∧ hash.length = hxHashIndexLen ∧
      hash <+: digests algo := by
  obtain ⟨url, digests, stores⟩ := agree.decodes (agree.hashStored held)
  obtain ⟨long, keys⟩ := agree.hashKey stores algo
  obtain ⟨nonempty, rfl⟩ := (keys hash).mp held
  have enough := long nonempty
  exact ⟨url, digests, stores, by rw [List.length_take]; omega, List.take_prefix _ _⟩

end Points

/-! ## One call -/

/-- A response decodes to one URL and to one digest for each algorithm. -/
theorem Stores.unique {db : Database} {time id : ℕ} {url other : Str}
    {digests others : HashAlgo → List UInt8} (first : Stores db time id url digests)
    (second : Stores db time id other others) : url = other ∧ digests = others := by
  obtain ⟨val, held, decodes⟩ := first
  obtain ⟨_, sameHeld, decodesOther⟩ := second
  obtain rfl := Option.some_inj.mp (held.symm.trans sameHeld)
  obtain ⟨read, unpacked, rfl, rfl⟩ := decodes Response.blank
  obtain ⟨_, sameUnpacked, rfl, rfl⟩ := decodesOther Response.blank
  cases unpacked.symm.trans sameUnpacked
  exact ⟨rfl, rfl⟩

section Add

variable {res : Response} {id : ℕ} {db after : Database} {surt : Str} {val : List Field}

/-- The response that was added is stored. -/
theorem Added.stores (added : Added res id db after surt val) :
    Stores after res.time id res.url res.digests :=
  ⟨val, added.response, fun out => ⟨_, unpack_of_pack added.packed out, rfl, rfl⟩⟩

/-- The keys of other times and ids are as they were. -/
theorem Added.elsewhere (added : Added res id db after surt val) {time other : ℕ}
    (different : ¬ (time = res.time ∧ other = id)) :
    after.lookup (.timeIDToResponse time other) = db.lookup (.timeIDToResponse time other) ∧
      (∀ text, after.lookup (.urlSurtAndTimeID text time other) =
        db.lookup (.urlSurtAndTimeID text time other)) ∧
      ∀ algo hash, after.lookup (.algoHashAndTimeID algo hash time other) =
        db.lookup (.algoHashAndTimeID algo hash time other) := by
  refine ⟨added.kept _ ?_ (by simp) ?_, ?_, ?_⟩
  · simpa using different
  · rintro ⟨_, _, _, same⟩
    cases same
  · intro text
    refine added.kept _ (by simp) ?_ ?_
    · simpa using fun _ => not_and.mp different
    · rintro ⟨_, _, _, same⟩
      cases same
  · intro algo hash
    refine added.kept _ (by simp) (by simp) ?_
    rintro ⟨_, _, _, same⟩
    cases same
    exact different ⟨rfl, rfl⟩

theorem Added.stores_elsewhere (added : Added res id db after surt val) {time other : ℕ}
    (different : ¬ (time = res.time ∧ other = id)) {url : Str} {digests : HashAlgo → List UInt8} :
    Stores after time other url digests ↔ Stores db time other url digests := by
  rw [Stores, Stores, (added.elsewhere different).1]

/-- Keys that are read alike are held alike. -/
theorem mem_iff_of_lookup_eq {key : Key} (same : after.lookup key = db.lookup key) :
    key ∈ after ↔ key ∈ db := by
  rw [Finmap.mem_iff, Finmap.mem_iff, same]

/-- The response that was added is the only new one. -/
theorem Added.response_iff (added : Added res id db after surt val) {time other : ℕ} :
    Key.timeIDToResponse time other ∈ after ↔
      (time = res.time ∧ other = id) ∨ Key.timeIDToResponse time other ∈ db := by
  by_cases here : time = res.time ∧ other = id
  · obtain ⟨rfl, rfl⟩ := here
    exact iff_of_true (Finmap.mem_iff.mpr ⟨_, added.response⟩) (.inl ⟨rfl, rfl⟩)
  · rw [mem_iff_of_lookup_eq (added.elsewhere here).1]
    simp [here]

/-- The keys of the new response are the ones that were written. -/
theorem Added.urlKey_iff (agree : TablesAgree db) (added : Added res id db after surt val)
    (other : Str) : Key.urlSurtAndTimeID other res.time id ∈ after ↔ other = surt := by
  by_cases same : other = surt
  · subst same
    exact iff_of_true (Finmap.mem_iff.mpr ⟨_, added.urlKey⟩) rfl
  · have kept : after.lookup (.urlSurtAndTimeID other res.time id) =
        db.lookup (.urlSurtAndTimeID other res.time id) := by
      refine added.kept _ (by simp) (by simpa using same) ?_
      rintro ⟨_, _, _, same⟩
      cases same
    rw [mem_iff_of_lookup_eq kept]
    exact iff_of_false (fun held => added.fresh (agree.urlStored held)) same

theorem Added.hashKey_iff (agree : TablesAgree db) (added : Added res id db after surt val)
    (algo : HashAlgo) (hash : List UInt8) : Key.algoHashAndTimeID algo hash res.time id ∈ after ↔
      res.digests algo ≠ [] ∧ hash = (res.digests algo).take hxHashIndexLen := by
  have isKey : IsHashKey res id HashAlgo.all (.algoHashAndTimeID algo hash res.time id) ↔
      res.digests algo ≠ [] ∧ hash = (res.digests algo).take hxHashIndexLen := by
    constructor
    · rintro ⟨_, _, nonempty, same⟩
      cases same
      exact ⟨nonempty, rfl⟩
    · rintro ⟨nonempty, rfl⟩
      exact ⟨algo, algo.mem_all, nonempty, rfl⟩
  rw [← isKey]
  by_cases written : IsHashKey res id HashAlgo.all (.algoHashAndTimeID algo hash res.time id)
  · exact iff_of_true (Finmap.mem_iff.mpr ⟨_, added.hashKeys _ written⟩) written
  · rw [mem_iff_of_lookup_eq (added.kept _ (by simp) (by simp) written)]
    exact iff_of_false (fun held => added.fresh (agree.hashStored held)) written

/-- **A call that succeeds keeps the tables in agreement.** -/
theorem TablesAgree.add (agree : TablesAgree db) (added : Added res id db after surt val) :
    TablesAgree after where
  decodes := by
    intro time other held
    by_cases here : time = res.time ∧ other = id
    · obtain ⟨rfl, rfl⟩ := here
      exact ⟨_, _, added.stores⟩
    · rw [mem_iff_of_lookup_eq (added.elsewhere here).1] at held
      obtain ⟨url, digests, stores⟩ := agree.decodes held
      exact ⟨url, digests, (added.stores_elsewhere here).mpr stores⟩
  urlKey := by
    intro time other url digests stores
    by_cases here : time = res.time ∧ other = id
    · obtain ⟨rfl, rfl⟩ := here
      obtain ⟨rfl, -⟩ := stores.unique added.stores
      exact ⟨surt, added.normalized, added.urlKey_iff agree⟩
    · rw [added.stores_elsewhere here] at stores
      obtain ⟨text, normalized, keys⟩ := agree.urlKey stores
      refine ⟨text, normalized, fun key => ?_⟩
      rw [mem_iff_of_lookup_eq ((added.elsewhere here).2.1 key)]
      exact keys key
  hashKey := by
    intro time other url digests stores algo
    by_cases here : time = res.time ∧ other = id
    · obtain ⟨rfl, rfl⟩ := here
      obtain ⟨-, rfl⟩ := stores.unique added.stores
      exact ⟨added.long algo, added.hashKey_iff agree algo⟩
    · rw [added.stores_elsewhere here] at stores
      obtain ⟨long, keys⟩ := agree.hashKey stores algo
      refine ⟨long, fun hash => ?_⟩
      rw [mem_iff_of_lookup_eq ((added.elsewhere here).2.2 algo hash)]
      exact keys hash
  urlStored := by
    intro text time other held
    by_cases here : time = res.time ∧ other = id
    · obtain ⟨rfl, rfl⟩ := here
      exact Finmap.mem_iff.mpr ⟨_, added.response⟩
    · rw [mem_iff_of_lookup_eq ((added.elsewhere here).2.1 text)] at held
      rw [mem_iff_of_lookup_eq (added.elsewhere here).1]
      exact agree.urlStored held
  hashStored := by
    intro algo hash time other held
    by_cases here : time = res.time ∧ other = id
    · obtain ⟨rfl, rfl⟩ := here
      exact Finmap.mem_iff.mpr ⟨_, added.response⟩
    · rw [mem_iff_of_lookup_eq ((added.elsewhere here).2.2 algo hash)] at held
      rw [mem_iff_of_lookup_eq (added.elsewhere here).1]
      exact agree.hashStored held

end Add

/-- Responses and their keys stay, a response as it was packed. -/
structure Grows (db after : Database) : Prop where
  response : ∀ {time id val}, db.lookup (.timeIDToResponse time id) = some val →
    after.lookup (.timeIDToResponse time id) = some val
  urlKey : ∀ {surt time id}, Key.urlSurtAndTimeID surt time id ∈ db →
    Key.urlSurtAndTimeID surt time id ∈ after

theorem Grows.refl (db : Database) : Grows db db := ⟨id, id⟩

theorem Grows.trans {db between after : Database} (earlier : Grows db between)
    (later : Grows between after) : Grows db after :=
  ⟨fun held => later.response (earlier.response held),
    fun held => later.urlKey (earlier.urlKey held)⟩

theorem Grows.stores {db after : Database} (grows : Grows db after) {time id : ℕ} {url : Str}
    {digests : HashAlgo → List UInt8} (stores : Stores db time id url digests) :
    Stores after time id url digests := by
  obtain ⟨val, held, decodes⟩ := stores
  exact ⟨val, grows.response held, decodes⟩

/-- Two stores hold the same responses and keys of responses. -/
def SameResponses (db after : Database) : Prop :=
  (∀ time id, after.lookup (.timeIDToResponse time id) = db.lookup (.timeIDToResponse time id)) ∧
    (∀ surt time id, after.lookup (.urlSurtAndTimeID surt time id) =
      db.lookup (.urlSurtAndTimeID surt time id)) ∧
    ∀ algo hash time id, after.lookup (.algoHashAndTimeID algo hash time id) =
      db.lookup (.algoHashAndTimeID algo hash time id)

theorem SameResponses.stores_iff {db after : Database} (same : SameResponses db after)
    {time id : ℕ} {url : Str} {digests : HashAlgo → List UInt8} :
    Stores after time id url digests ↔ Stores db time id url digests := by
  rw [Stores, Stores, same.1]

theorem SameResponses.grows {db after : Database} (same : SameResponses db after) :
    Grows db after :=
  ⟨(same.1 _ _).trans, (mem_iff_of_lookup_eq (same.2.1 _ _ _)).mpr⟩

theorem TablesAgree.congr {db after : Database} (agree : TablesAgree db)
    (same : SameResponses db after) : TablesAgree after where
  decodes := by
    intro time id held
    obtain ⟨url, digests, stores⟩ := agree.decodes ((mem_iff_of_lookup_eq (same.1 _ _)).mp held)
    exact ⟨url, digests, same.stores_iff.mpr stores⟩
  urlKey := by
    intro time id url digests stores
    obtain ⟨surt, normalized, keys⟩ := agree.urlKey (same.stores_iff.mp stores)
    exact ⟨surt, normalized, fun other => (mem_iff_of_lookup_eq (same.2.1 _ _ _)).trans (keys other)⟩
  hashKey := by
    intro time id url digests stores algo
    obtain ⟨long, keys⟩ := agree.hashKey (same.stores_iff.mp stores) algo
    exact ⟨long, fun hash => (mem_iff_of_lookup_eq (same.2.2 _ _ _ _)).trans (keys hash)⟩
  urlStored held := (mem_iff_of_lookup_eq (same.1 _ _)).mpr
    (agree.urlStored ((mem_iff_of_lookup_eq (same.2.1 _ _ _)).mp held))
  hashStored held := (mem_iff_of_lookup_eq (same.1 _ _)).mpr
    (agree.hashStored ((mem_iff_of_lookup_eq (same.2.2 _ _ _ _)).mp held))

/-- A call that succeeds only adds. -/
theorem Added.grows {res : Response} {id : ℕ} {db after : Database} {surt : Str}
    {val : List Field} (added : Added res id db after surt val) : Grows db after where
  response := by
    intro time other held lookup
    refine (added.elsewhere ?_).1.trans lookup
    rintro ⟨rfl, rfl⟩
    exact added.fresh (Finmap.mem_iff.mpr ⟨_, lookup⟩)
  urlKey := by
    intro text time other held
    by_cases this : Key.urlSurtAndTimeID text time other = .urlSurtAndTimeID surt res.time id
    · rw [this]
      exact Finmap.mem_iff.mpr ⟨_, added.urlKey⟩
    · have kept := added.kept (.urlSurtAndTimeID text time other) (by simp) this (by
        rintro ⟨_, _, _, same⟩
        cases same)
      exact (mem_iff_of_lookup_eq kept).mpr held

/-- A response is in the table, as it was packed. -/
def Present (db : Database) (res : Response) (id : ℕ) : Prop :=
  ∃ val, timeIDToResponseValPack res = .ok val ∧
    db.lookup (.timeIDToResponse res.time id) = some val

instance (db : Database) (res : Response) (id : ℕ) : Decidable (Present db res id) :=
  match packed : timeIDToResponseValPack res with
  | .ok val => decidable_of_iff (db.lookup (.timeIDToResponse res.time id) = some val)
      ⟨fun held => ⟨val, packed, held⟩, fun ⟨_, same, held⟩ =>
        Except.ok.inj (same.symm.trans packed) ▸ held⟩
  | .error _ => .isFalse fun ⟨_, same, _⟩ => by cases packed.symm.trans same

theorem Present.grows {db after : Database} {res : Response} {id : ℕ}
    (present : Present db res id) (grows : Grows db after) : Present after res id := by
  obtain ⟨val, packed, held⟩ := present
  exact ⟨val, packed, grows.response held⟩

theorem Added.present {res : Response} {id : ℕ} {db after : Database} {surt : Str}
    {val : List Field} (added : Added res id db after surt val) : Present after res id :=
  ⟨val, added.packed, added.response⟩

/-! ## Calls that fail -/

/-- Adding hash keys that are all free succeeds, or fails the assertion on a digest that
is too short for the index. -/
theorem hashKeysAdd_of_free {res : Response} {id : ℕ} {algos : List HashAlgo} {db : Database}
    (distinct : algos.Nodup) (free : ∀ algo ∈ algos, hashKey res id algo ∉ db) :
    (∃ after, hashKeysAdd res id algos db = (.ok (), after)) ∨
      (∃ after, hashKeysAdd res id algos db = (.error (.fault .assertion), after)) ∧
        ∃ algo ∈ algos, res.digests algo ≠ [] ∧ (res.digests algo).length < hxHashIndexLen := by
  induction algos generalizing db with
  | nil => exact .inl ⟨db, rfl⟩
  | cons algo rest ih =>
      obtain ⟨notLater, distinct⟩ := List.nodup_cons.mp distinct
      rw [List.forall_mem_cons] at free
      by_cases empty : (res.digests algo).length = 0
      · rw [hashKeysAdd, if_pos empty]
        rcases ih distinct free.2 with done | ⟨failed, short, member, rest⟩
        · exact .inl done
        · exact .inr ⟨failed, short, List.mem_cons_of_mem _ member, rest⟩
      rw [hashKeysAdd, if_neg empty]
      by_cases long : (res.digests algo).length ≥ hxHashIndexLen
      · have put : Txn.kvsPut (hashKey res id algo) ([] : List Field) true db =
            (.ok (), db.insert (hashKey res id algo) []) := if_neg (by simp [free.1])
        have stillFree (other : HashAlgo) (member : other ∈ rest) :
            hashKey res id other ∉ db.insert (hashKey res id algo) [] := by
          rw [Finmap.mem_insert, not_or]
          refine ⟨fun same => notLater ?_, free.2 other member⟩
          simp only [hashKey, Key.algoHashAndTimeID.injEq] at same
          exact same.1 ▸ member
        rw [Txn.assert_bind long, ← hashKey, Txn.bind_of_ok put]
        rcases ih distinct stillFree with done | ⟨failed, short, member, rest⟩
        · exact .inl done
        · exact .inr ⟨failed, short, List.mem_cons_of_mem _ member, rest⟩
      · rw [Txn.assert_bind_of_not long]
        refine .inr ⟨⟨db, rfl⟩, algo, List.mem_cons_self, fun none => empty ?_, not_le.mp long⟩
        rw [none, List.length_nil]

/-- The keys of the index tables are free with the key of the response. -/
theorem TablesAgree.keys_free {res : Response} {id : ℕ} {db : Database} (agree : TablesAgree db)
    (fresh : Key.timeIDToResponse res.time id ∉ db) (surt : Str) (val : List Field) :
    Key.urlSurtAndTimeID surt res.time id ∉ db.insert (.timeIDToResponse res.time id) val ∧
      ∀ algo ∈ HashAlgo.all, Db.hashKey res id algo ∉
        (db.insert (.timeIDToResponse res.time id) val).insert
          (.urlSurtAndTimeID surt res.time id) ([] : List Field) := by
  refine ⟨?_, fun algo _ => ?_⟩
  · rw [Finmap.mem_insert, not_or]
    exact ⟨by simp, fun held => fresh (agree.urlStored held)⟩
  · rw [Finmap.mem_insert, Finmap.mem_insert, not_or, not_or]
    exact ⟨by simp [Db.hashKey], by simp [Db.hashKey], fun held => fresh (agree.hashStored held)⟩

/-- A call comes to its hash keys when the key of the response is free. -/
theorem hxResponseAdd_of_fresh_eq {res : Response} {id : ℕ} {db : Database} {surt : Str}
    {val : List Field} (agree : TablesAgree db)
    (normalized : urlNormalizeSurt res.url uriMax = .ok surt)
    (packed : timeIDToResponseValPack res = .ok val)
    (fresh : Key.timeIDToResponse res.time id ∉ db) :
    hxResponseAdd res id db = hashKeysAdd res id HashAlgo.all
      ((db.insert (.timeIDToResponse res.time id) val).insert
        (.urlSurtAndTimeID surt res.time id) []) := by
  have put : Txn.kvsPut (.timeIDToResponse res.time id) val true db =
      (.ok (), db.insert (.timeIDToResponse res.time id) val) := if_neg (by simp [fresh])
  have putUrl : Txn.kvsPut (.urlSurtAndTimeID surt res.time id) ([] : List Field) true
      (db.insert (.timeIDToResponse res.time id) val) = (.ok (), _) :=
    if_neg (by simpa using (agree.keys_free fresh surt val).1)
  rw [hxResponseAdd, normalized, Txn.bind_of_ok (Txn.call_apply _ _), packed,
    Txn.bind_of_ok (Txn.call_apply _ _), Txn.bind_of_ok put, Txn.bind_of_ok putUrl]

/-- **A call for a well-formed response under a free key succeeds.** -/
theorem hxResponseAdd_of_fresh {res : Response} {id : ℕ} {db : Database} (agree : TablesAgree db)
    (wellFormed : res.WellFormed) (fresh : Key.timeIDToResponse res.time id ∉ db) :
    ∃ after, hxResponseAdd res id db = (.ok (), after) := by
  obtain ⟨surt, normalized⟩ := wellFormed.normalized
  obtain ⟨val, packed⟩ := wellFormed.packed
  rw [hxResponseAdd_of_fresh_eq agree normalized packed fresh]
  rcases hashKeysAdd_of_free (by decide) (agree.keys_free fresh surt val).2 with done | ⟨-, short⟩
  · exact done
  · obtain ⟨algo, -, nonempty, short⟩ := short
    rcases wellFormed.digests algo with empty | ⟨long, -⟩
    · exact absurd empty nonempty
    · omega

/-- **A call that returns an error has written nothing.** Only the key of the
response itself can be taken. -/
theorem hxResponseAdd_code {res : Response} {id : ℕ} {db after : Database} {rc : ErrorCode}
    (agree : TablesAgree db) (failed : hxResponseAdd res id db = (.error (.code rc), after)) :
    after = db := by
  cases normalized : urlNormalizeSurt res.url uriMax with
  | error failure =>
      rw [hxResponseAdd, normalized, Txn.bind_of_error (Txn.call_apply _ _)] at failed
      cases failed
      rfl
  | ok surt =>
  cases packed : timeIDToResponseValPack res with
  | error failure =>
      rw [hxResponseAdd, normalized, Txn.bind_of_ok (Txn.call_apply _ _), packed,
        Txn.bind_of_error (Txn.call_apply _ _)] at failed
      cases failed
      rfl
  | ok val =>
  by_cases taken : Key.timeIDToResponse res.time id ∈ db
  · have refused : Txn.kvsPut (.timeIDToResponse res.time id) val true db =
        (.error (.code .kvsKeyexist), db) := if_pos (by simp [taken])
    rw [hxResponseAdd, normalized, Txn.bind_of_ok (Txn.call_apply _ _), packed,
      Txn.bind_of_ok (Txn.call_apply _ _), Txn.bind_of_error refused] at failed
    cases failed
    rfl
  · rw [hxResponseAdd_of_fresh_eq agree normalized packed taken] at failed
    rcases hashKeysAdd_of_free (by decide) (agree.keys_free taken surt val).2 with
      ⟨_, done⟩ | ⟨⟨_, fault⟩, -⟩
    · cases done.symm.trans failed
    · cases fault.symm.trans failed

/-! ## Transactions -/

/-- A transaction of the archive: its calls of `hx_response_add`, and whether it
is committed. -/
structure ResponseTxn where
  calls : List (Response × ℕ)
  committed : Bool

/-- The calls of a transaction, in order. A call that returns an error leaves what
it has written; a fault ends the process. -/
def runCalls : List (Response × ℕ) → Database → Option Database
  | [], db => some db
  | (res, id) :: calls, db =>
    match hxResponseAdd res id db with
    | (.ok _, after) | (.error (.code _), after) => runCalls calls after
    | (.error (.fault _), _) => none

/-- The archive as its transactions change it. A transaction that is aborted, or
whose process ends before it commits, leaves the store as it was. -/
def archive : Machine Database ResponseTxn where
  start := ∅
  step db txn := some <|
    match runCalls txn.calls db with
    | some after => if txn.committed then after else db
    | none => db

theorem tablesAgree_empty : TablesAgree ∅ where
  decodes held := absurd held (Finmap.notMem_empty)
  urlKey := by
    rintro _ _ _ _ ⟨_, held, _⟩
    simp at held
  hashKey := by
    rintro _ _ _ _ ⟨_, held, _⟩
    simp at held
  urlStored held := absurd held (Finmap.notMem_empty)
  hashStored held := absurd held (Finmap.notMem_empty)

theorem TablesAgree.runCalls {calls : List (Response × ℕ)} {db after : Database}
    (agree : TablesAgree db) (done : Db.runCalls calls db = some after) : TablesAgree after := by
  induction calls generalizing db with
  | nil =>
      cases done
      exact agree
  | cons call calls ih =>
      obtain ⟨res, id⟩ := call
      rw [Db.runCalls] at done
      cases outcome : hxResponseAdd res id db with
      | mk result between =>
          rw [outcome] at done
          rcases result with (rc | fault) | value
          · exact ih (hxResponseAdd_code agree outcome ▸ agree) done
          · cases done
          · obtain ⟨surt, val, added⟩ := hxResponseAdd_eq_ok outcome
            exact ih (agree.add added) done

/-- **The tables agree after any transactions.** -/
theorem tablesAgree_of_reaches {db : Database} (reached : archive.Reaches Machine.anyStep db) :
    TablesAgree db := by
  refine Machine.Reaches.invariant tablesAgree_empty ?_ reached
  intro before txn next agree _ step
  cases step
  cases calls : Db.runCalls txn.calls before with
  | none => exact agree
  | some after =>
      by_cases committed : txn.committed = true
      · simpa [committed] using agree.runCalls calls
      · simpa [committed] using agree

end HashArchive.Db
