import HashArchive.Foundations.Staircase
import HashArchive.Import.FromDump

/-!
# Importing from SQLite

`import-hxjs.js` reads responses from a SQLite database with tables of requests, responses and
hashes, and sends each over the import socket. It looks for one response at a time: the first in
the order of times and ids whose request has an id beyond the one it has remembered, which then
becomes the id of the request of that response.

So a response is passed over when an earlier one is of the same request or a later one
(`mem_visited_iff`): requests that were not answered in the order of their ids lose responses,
and so does a request with more than one. What is visited is stored (`hxjs_migrated`).

A time is in milliseconds; `write_uint64` drops the fraction of a second. A content type can be
`NULL`.
-/

set_option autoImplicit false

namespace HashArchive.Import

open Db Hash Queue

/-! ## The importer -/

/-- A row of `responses` with the row of `requests` it belongs to and its hashes. -/
structure Row where
  id : ℕ
  url : List UInt8
  status : ℤ
  type : Option (List UInt8)
  time : ℕ
  responseId : ℕ
  hashes : List (Str × List UInt8)

/-- `ORDER BY res.response_time ASC, res.response_id ASC`. -/
def Row.order (row : Row) : ℕ ×ₗ ℕ := toLex (row.time, row.responseId)

/-- The rows in the order of the query. -/
def inOrder (rows : List Row) : List Row := rows.mergeSort fun first second =>
  first.order ≤ second.order

/-- What is sent for a row. -/
def Row.response (row : Row) : JsResponse where
  time := some (row.time / 1000 : ℕ)
  url := row.url
  status := row.status
  type := row.type.getD []
  length := none
  digests := fun algo => row.hashes.reverse.lookup algo.name

/-- `next`, with the rows it sends one after the other; `none` when the fuel runs out. -/
def next (rows : List Row) : ℕ → ℕ → Option (List Row)
  | 0, _ => none
  | fuel + 1, cid =>
    match (inOrder rows).find? fun row => cid < row.id with
    | none => some []
    | some res => (next rows fuel res.id).map fun later => res :: later

/-- What is sent for the rows of a database. -/
def fromHxjs (rows : List Row) (fuel : ℕ) : Option (List UInt8) :=
  (next rows fuel 0).map fun visited => stream (visited.map Row.response)

/-! ## Which rows are sent -/

/-- One row comes before the other in the order of the query. -/
def Row.Earlier (first second : Row) : Prop := first.order < second.order

theorem next_eq_walk (rows : List Row) (fuel cid : ℕ) :
    next rows fuel cid = Staircase.walk Row.id (inOrder rows) fuel cid := by
  induction fuel generalizing cid with
  | zero => rfl
  | succ fuel ih =>
      rw [next, Staircase.walk]
      cases (inOrder rows).find? fun row => cid < row.id with
      | none => rfl
      | some row => exact congrArg (Option.map _) (ih row.id)

/-- The rows that are visited. -/
def visited (rows : List Row) : List Row := Staircase.records Row.id 0 (inOrder rows)

theorem mem_inOrder {rows : List Row} {row : Row} : row ∈ inOrder rows ↔ row ∈ rows :=
  List.mem_mergeSort

/-- Rows with different ids of responses are in strict order. -/
theorem pairwise_inOrder {rows : List Row} (distinct : (rows.map Row.responseId).Nodup) :
    (inOrder rows).Pairwise Row.Earlier := by
  have sorted : (inOrder rows).Pairwise fun first second => first.order ≤ second.order := by
    refine (List.pairwise_mergeSort ?_ ?_ rows).imp fun ordered => of_decide_eq_true ordered
    · intro first second third ordered again
      exact decide_eq_true ((of_decide_eq_true ordered).trans (of_decide_eq_true again))
    · intro first second
      rw [Bool.or_eq_true, decide_eq_true_eq, decide_eq_true_eq]
      exact le_total _ _
  have apart : (inOrder rows).Pairwise fun first second => first.responseId ≠ second.responseId :=
    List.pairwise_map.mp (((List.mergeSort_perm rows _).map _).nodup_iff.mpr distinct)
  refine (sorted.and apart).imp fun both => lt_of_le_of_ne both.1 fun same => both.2 ?_
  exact congrArg (fun order => (ofLex order).2) same

/-- **Which responses are migrated**: those before which no response of the same request or a
later one comes. -/
theorem mem_visited_iff {rows : List Row} (distinct : (rows.map Row.responseId).Nodup) {row : Row} :
    row ∈ visited rows ↔ row ∈ rows ∧ 0 < row.id ∧
      ∀ other ∈ rows, other.Earlier row → other.id < row.id := by
  have found := @Staircase.mem_records_iff _ _ _ Row.id Row.Earlier (fun before => before.asymm) _
    (pairwise_inOrder distinct) 0 row
  simpa only [visited, mem_inOrder] using found

/-- **When all responses are migrated**: each request has at most one, and they came in the order
of their requests. -/
theorem all_visited_iff {rows : List Row} (distinct : (rows.map Row.responseId).Nodup) :
    (∀ row ∈ rows, row ∈ visited rows) ↔ (∀ row ∈ rows, 0 < row.id) ∧
      ∀ first ∈ rows, ∀ second ∈ rows, first.Earlier second → first.id < second.id := by
  simp only [mem_visited_iff distinct]
  constructor
  · intro each
    exact ⟨fun row member => (each row member).2.1,
      fun first member second inRows => (each second inRows).2.2 first member⟩
  · rintro ⟨positive, ordered⟩ row member
    exact ⟨member, positive row member, fun other inRows => ordered other inRows row member⟩

/-! ## What is stored -/

/-- A row that can be imported. -/
def Row.Sendable (row : Row) : Prop :=
  ∃ record : Record, record.toJsResponse = row.response ∧ record.Storable

/-- **A response of the archive is that of a row.** -/
structure Migrated (row : Row) (res : Response) : Prop where
  time : res.time = row.time / 1000
  url : res.url = chars row.url
  status : res.status = row.status
  type : res.type = chars (row.type.getD [])
  length : res.length = 2 ^ 64 - 1
  digests : ∀ algo : HashAlgo, res.digests algo = (row.hashes.reverse.lookup algo.name).getD []

theorem migrated_of_storable {row : Row} {record : Record}
    (same : record.toJsResponse = row.response) (storable : record.Storable) :
    Migrated row record.stored := by
  rw [Record.stored_eq_sent_iff.mpr ⟨storable.url, storable.type⟩]
  have time : record.time = some ((row.time / 1000 : ℕ) : ℤ) := congrArg JsResponse.time same
  have url : record.url = row.url := congrArg JsResponse.url same
  have type : record.type = row.type.getD [] := congrArg JsResponse.type same
  have length : record.length = none := congrArg JsResponse.length same
  exact {
    time := (congrArg number time).trans (Int.toNat_natCast _)
    url := congrArg chars url
    status := congrArg JsResponse.status same
    type := congrArg chars type
    length := congrArg number length
    digests := fun algo => congrArg (fun sent => (sent.digests (.known algo)).getD []) same }

/-- The records that are sent for some rows. -/
theorem exists_migrated {rows : List Row} (sendable : ∀ row ∈ rows, row.Sendable) :
    ∃ records, stream (rows.map Row.response) = bytes records ∧
      List.Forall₂ Migrated rows (records.map Record.stored) ∧
      ∀ record ∈ records, record.Storable := by
  induction rows with
  | nil => exact ⟨[], rfl, .nil, List.forall_mem_nil _⟩
  | cons row rows ih =>
      obtain ⟨⟨record, same, storable⟩, later⟩ := List.forall_mem_cons.mp sendable
      obtain ⟨records, written, migrated, all⟩ := ih later
      refine ⟨record :: records, ?_, .cons (migrated_of_storable same storable) migrated,
        List.forall_mem_cons.mpr ⟨storable, all⟩⟩
      rw [bytes_cons, ← written, same]
      rfl

theorem exists_row {rows : List Row} {responses : List Response}
    (migrated : List.Forall₂ Migrated rows responses) {res : Response} (member : res ∈ responses) :
    ∃ row ∈ rows, Migrated row res := by
  induction migrated with
  | nil => cases member
  | cons here _ ih =>
      rcases List.mem_cons.mp member with rfl | later
      · exact ⟨_, List.mem_cons_self, here⟩
      · obtain ⟨row, inRows, same⟩ := ih later
        exact ⟨row, List.mem_cons_of_mem _ inRows, same⟩

/-- A response of the sample site to a request. -/
def Row.sample (id time responseId : ℕ) : Row where
  id := id
  url := "http://a/".toList.map fun c => UInt8.ofNat c.toNat
  status := 200
  type := none
  time := time
  responseId := responseId
  hashes := []

theorem Row.sendable_sample {id time responseId : ℕ} (second : time / 1000 = 1) :
    (Row.sample id time responseId).Sendable := by
  refine ⟨Record.bare 200 (by decide) (by decide), ?_, ?_⟩
  · rw [Row.response, Row.sample, second]
    rfl
  · exact ⟨by decide, by decide, by decide⟩

end HashArchive.Import
