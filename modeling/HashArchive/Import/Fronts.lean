import HashArchive.Import.Stream

/-!
# What a stream holds

The bytes that are sent to the import socket, as the wire format describes them: a record
has a head and a number of digests, each with its length (`readHead`, `readBlobs`). What is
at the front of a stream is a record with the bytes after it, or the beginning of one
(`front`). A stream is taken apart by going on after each record (`fronts`).

`read_responses` reads what is at the front (`readResponse_of_front`), but stops with a
failed assertion at a digest that is longer than those of its algorithm
(`Front.Oversized`).
-/

set_option autoImplicit false

namespace HashArchive.Import

open Db Hash Queue

/-! ## The format -/

/-- The fields of a record before its digests. -/
structure Head where
  time : ℕ
  url : { text : Str // text.length < uriMax }
  tmp : ℕ
  type : { text : Str // text.length < typeMax }
  length : ℕ
  hcount : ℕ

/-- The head of a record. -/
def readHead : StreamReader Head := do
  let time ← readUint64
  let url ← readString uriMax
  let tmp ← readUint64
  let type ← readString typeMax
  let length ← readUint64
  let hcount ← readUint16
  pure ⟨time, url, tmp, type, length, hcount⟩

/-- A number of digests: those that are there, and what follows them when all are. -/
def readBlobs : ℕ → List UInt8 → List (List UInt8) × Option (List UInt8)
  | 0, stream => ([], some stream)
  | count + 1, stream =>
    match readBlob hashDigestMax stream with
    | (.ok buf, rest) => (buf :: (readBlobs count rest).1, (readBlobs count rest).2)
    | (.error _, _) => ([], none)

/-- The response that a head and its digests stand for. -/
def Head.response (head : Head) (digests : List (List UInt8)) : Response := { Response.blank with
  time := head.time
  url := head.url
  status := Int.bmod (head.tmp - 0xffff) (2 ^ 32)
  type := head.type
  length := head.length
  digests := fun algo => digests.getD algo.index []
  url_lt := head.url.property
  type_lt := head.type.property }

/-- What is at the front of a stream: the digests that are there, and the response with the
rest of the stream when all of it is. -/
structure Front where
  digests : List (List UInt8)
  record : Option (Response × List UInt8)

/-- The front of a stream. -/
def front (stream : List UInt8) : Front :=
  match readHead stream with
  | (.error _, _) => ⟨[], none⟩
  | (.ok head, rest) =>
    let blobs := readBlobs head.hcount rest
    ⟨blobs.1, blobs.2.map fun rest => (head.response blobs.1, rest)⟩

/-- A digest that is there is longer than those of its algorithm. -/
def Front.Oversized (front : Front) : Prop :=
  ∃ known ∈ HashAlgo.all.zip front.digests, known.1.digestLen < known.2.length

instance (front : Front) : Decidable front.Oversized :=
  inferInstanceAs (Decidable (∃ known ∈ HashAlgo.all.zip front.digests, _))

/-! ## Reading in two parts -/

/-- What `read_responses` reads of a record after its head. -/
def readRest (slot : Response) (head : Head) : StreamReader Response := do
  let digests ← readDigests slot.digests (HashAlgo.all.take head.hcount)
  discardDigests (head.hcount - HashAlgo.all.length)
  pure { slot with
    time := head.time
    url := head.url
    status := Int.bmod (head.tmp - 0xffff) (2 ^ 32)
    type := head.type
    length := head.length
    digests := fun algo => if head.hcount ≤ algo.index then [] else digests algo
    url_lt := head.url.property
    type_lt := head.type.property }

theorem readResponse_eq (slot : Response) : readResponse slot = readHead >>= readRest slot := by
  simp only [readHead, ByteReader.bind_assoc]
  rfl

/-! ## What is not read ends without an assertion -/

theorem avoids_readLen (len : ℕ) : (readLen len).Avoids .assertion := .exactly (by decide) len

theorem avoids_readUint16 : readUint16.Avoids .assertion :=
  (avoids_readLen 2).bind fun _ => .pure _

theorem avoids_readUint64 : readUint64.Avoids .assertion :=
  (avoids_readLen 8).bind fun _ => .pure _

theorem avoids_readString (max : ℕ) : (readString max).Avoids .assertion := by
  apply avoids_readUint16.bind
  intro len
  split_ifs with fits
  · exact (avoids_readLen len).bind fun _ => .pure _
  · exact .fail (by decide)

theorem avoids_readBlob (max : ℕ) : (readBlob max).Avoids .assertion := by
  apply avoids_readUint16.bind
  intro len
  split_ifs with fits
  · exact (avoids_readLen len).bind fun _ => .pure _
  · exact .fail (by decide)

theorem avoids_readHead : readHead.Avoids .assertion := by
  apply avoids_readUint64.bind
  intro _
  apply (avoids_readString _).bind
  intro _
  apply avoids_readUint64.bind
  intro _
  apply (avoids_readString _).bind
  intro _
  apply avoids_readUint64.bind
  intro _
  exact avoids_readUint16.bind fun _ => .pure _

theorem takes_readHead : readHead.Takes 8 := by
  apply takes_readUint64.bind
  intro time
  apply (takes_readString _).zero.bind
  intro url
  apply takes_readUint64.zero.bind
  intro tmp
  apply (takes_readString _).zero.bind
  intro type
  apply takes_readUint64.zero.bind
  intro length
  exact takes_readUint16.zero.bind fun hcount => .pure _

/-! ## The digests -/

/-- A reader stops before the end of a record, with an error that is returned. -/
def Stops {α : Type} (outcome : Except ReadError α × List UInt8) : Prop :=
  ∃ error, error ≠ .assertion ∧ outcome.1 = .error error

theorem stops_of_error {α : Type} {reader : StreamReader α} (avoids : reader.Avoids .assertion)
    {stream rest : List UInt8} {error : ReadError} (failed : reader stream = (.error error, rest)) :
    error ≠ .assertion := by
  rintro rfl
  exact avoids stream (by rw [failed])

theorem readBlobs_of_ok {count : ℕ} {stream rest buf : List UInt8}
    (read : readBlob hashDigestMax stream = (.ok buf, rest)) :
    readBlobs (count + 1) stream = (buf :: (readBlobs count rest).1, (readBlobs count rest).2) := by
  rw [readBlobs, read]

theorem readBlobs_of_error {count : ℕ} {stream rest : List UInt8} {error : ReadError}
    (failed : readBlob hashDigestMax stream = (.error error, rest)) :
    readBlobs (count + 1) stream = ([], none) := by
  rw [readBlobs, failed]

/-- The digests are read one part after the other. -/
theorem readBlobs_add (first second : ℕ) (stream : List UInt8) :
    readBlobs (first + second) stream = match (readBlobs first stream).2 with
      | none => ((readBlobs first stream).1, none)
      | some rest => ((readBlobs first stream).1 ++ (readBlobs second rest).1,
          (readBlobs second rest).2) := by
  induction first generalizing stream with
  | zero => simp [readBlobs]
  | succ first ih =>
      rcases read : readBlob hashDigestMax stream with ⟨error | buf, rest⟩
      · rw [Nat.add_right_comm, readBlobs_of_error read, readBlobs_of_error read]
      · rw [Nat.add_right_comm, readBlobs_of_ok read, readBlobs_of_ok read, ih]
        cases (readBlobs first rest).2 <;> rfl

/-- There is one digest for each that was announced, when they are all there. -/
theorem length_readBlobs {count : ℕ} {stream rest : List UInt8}
    (all : (readBlobs count stream).2 = some rest) : (readBlobs count stream).1.length = count := by
  induction count generalizing stream with
  | zero => rfl
  | succ count ih =>
      rcases read : readBlob hashDigestMax stream with ⟨error | buf, between⟩
      · rw [readBlobs_of_error read] at all
        cases all
      · rw [readBlobs_of_ok read] at all ⊢
        exact congrArg Nat.succ (ih all)

theorem length_readBlobs_le (count : ℕ) (stream : List UInt8) :
    (readBlobs count stream).1.length ≤ count := by
  induction count generalizing stream with
  | zero => exact Nat.le_refl _
  | succ count ih =>
      rcases read : readBlob hashDigestMax stream with ⟨error | buf, between⟩
      · rw [readBlobs_of_error read]
        exact Nat.zero_le _
      · rw [readBlobs_of_ok read]
        exact Nat.succ_le_succ (ih between)

/-- What is left after the digests. -/
theorem length_rest_readBlobs {count : ℕ} {stream rest : List UInt8}
    (all : (readBlobs count stream).2 = some rest) : rest.length ≤ stream.length := by
  induction count generalizing stream with
  | zero => cases all; exact Nat.le_refl _
  | succ count ih =>
      rcases read : readBlob hashDigestMax stream with ⟨error | buf, between⟩
      · rw [readBlobs_of_error read] at all
        cases all
      · rw [readBlobs_of_ok read] at all
        have here := (takes_readBlob hashDigestMax).zero.least read
        exact (ih all).trans here

theorem discardDigests_of_readBlobs {count : ℕ} {stream rest : List UInt8}
    (all : (readBlobs count stream).2 = some rest) :
    discardDigests count stream = (.ok (), rest) := by
  induction count generalizing stream with
  | zero => cases all; rfl
  | succ count ih =>
      rcases read : readBlob hashDigestMax stream with ⟨error | buf, between⟩
      · rw [readBlobs_of_error read] at all
        cases all
      · rw [readBlobs_of_ok read] at all
        rw [discardDigests, ByteReader.bind_of_ok read, ih all]

theorem stops_discardDigests {count : ℕ} {stream : List UInt8}
    (cut : (readBlobs count stream).2 = none) : Stops (discardDigests count stream) := by
  induction count generalizing stream with
  | zero => cases cut
  | succ count ih =>
      rcases read : readBlob hashDigestMax stream with ⟨error | buf, between⟩
      · rw [discardDigests, ByteReader.bind_of_error read]
        exact ⟨error, stops_of_error (avoids_readBlob _) read, rfl⟩
      · rw [readBlobs_of_ok read] at cut
        rw [discardDigests, ByteReader.bind_of_ok read]
        exact ih cut

/-- Digests that are put in the places of their algorithms. -/
def place (start : HashAlgo → List UInt8) (known : List (HashAlgo × List UInt8)) :
    HashAlgo → List UInt8 :=
  known.foldl (fun digests known => Function.update digests known.1 known.2) start

theorem place_of_not_mem {algo : HashAlgo} {algos : List HashAlgo} (absent : algo ∉ algos)
    (start : HashAlgo → List UInt8) (blobs : List (List UInt8)) :
    place start (algos.zip blobs) algo = start algo := by
  induction algos generalizing start blobs with
  | nil => rfl
  | cons first algos ih =>
      rw [List.mem_cons, not_or] at absent
      cases blobs with
      | nil => rfl
      | cons buf blobs =>
          calc place start ((first :: algos).zip (buf :: blobs)) algo
              = place (Function.update start first buf) (algos.zip blobs) algo := rfl
            _ = start algo := by rw [ih absent.2, Function.update_of_ne absent.1]

/-- Each algorithm has its digest. -/
theorem place_apply {algos : List HashAlgo} (distinct : algos.Nodup) {algo : HashAlgo} {index : ℕ}
    (position : algos[index]? = some algo) {blobs : List (List UInt8)} {buf : List UInt8}
    (there : blobs[index]? = some buf) (start : HashAlgo → List UInt8) :
    place start (algos.zip blobs) algo = buf := by
  induction algos generalizing start blobs index with
  | nil => cases position
  | cons first algos ih =>
      obtain ⟨absent, later⟩ := List.nodup_cons.mp distinct
      cases blobs with
      | nil => cases there
      | cons other blobs =>
          show place (Function.update start first other) (algos.zip blobs) algo = buf
          cases index with
          | zero =>
              cases position
              cases there
              rw [place_of_not_mem absent, Function.update_self]
          | succ index => exact ih later position there _

/-- **What `read_responses` makes of the digests of known algorithms**: it fails at the first
that is too long, stops where they are cut off, or puts them in their places. -/
theorem readDigests_of_readBlobs (start : HashAlgo → List UInt8) (algos : List HashAlgo)
    (stream : List UInt8) :
    ((∃ known ∈ algos.zip (readBlobs algos.length stream).1, known.1.digestLen < known.2.length) →
      (readDigests start algos stream).1 = .error .assertion) ∧
    ((∀ known ∈ algos.zip (readBlobs algos.length stream).1, known.2.length ≤ known.1.digestLen) →
      match (readBlobs algos.length stream).2 with
      | none => Stops (readDigests start algos stream)
      | some rest => readDigests start algos stream =
          (.ok (place start (algos.zip (readBlobs algos.length stream).1)), rest)) := by
  induction algos generalizing start stream with
  | nil => exact ⟨by simp, fun _ => rfl⟩
  | cons algo algos ih =>
      rcases read : readBlob hashDigestMax stream with ⟨error | buf, between⟩
      · rw [List.length_cons, readBlobs_of_error read, readDigests, ByteReader.bind_of_error read]
        exact ⟨by simp, fun _ => ⟨error, stops_of_error (avoids_readBlob _) read, rfl⟩⟩
      · rw [List.length_cons, readBlobs_of_ok read, readDigests, ByteReader.bind_of_ok read,
          List.zip_cons_cons]
        by_cases fits : buf.length ≤ algo.digestLen
        · obtain ⟨fails, reads⟩ := ih (Function.update start algo buf) between
          rw [if_pos fits]
          refine ⟨fun oversized => fails ?_, fun sound => reads (List.forall_mem_cons.mp sound).2⟩
          obtain ⟨known, member, long⟩ := oversized
          rcases List.mem_cons.mp member with rfl | later
          · exact absurd long (Nat.not_lt.mpr fits)
          · exact ⟨known, later, long⟩
        · rw [if_neg fits]
          exact ⟨fun _ => rfl, fun sound => absurd (List.forall_mem_cons.mp sound).1 fits⟩

/-! ## A record -/

theorem zip_eq_take_zip {α β : Type} {known : List α} {found : List β} {count : ℕ}
    (few : found.length ≤ count) : known.zip found = (known.take count).zip found := by
  induction known generalizing found count with
  | nil => rw [List.take_nil]
  | cons first known ih =>
      cases found with
      | nil => rw [List.zip_nil_right, List.zip_nil_right]
      | cons other found =>
          cases count with
          | zero => cases few
          | succ count =>
              rw [List.take_succ_cons, List.zip_cons_cons, List.zip_cons_cons,
                ih (Nat.le_of_succ_le_succ few)]

/-- The digests of known algorithms are the first ones. -/
theorem zip_readBlobs (hcount : ℕ) (stream : List UInt8) :
    HashAlgo.all.zip (readBlobs hcount stream).1 = (HashAlgo.all.take hcount).zip
      (readBlobs (HashAlgo.all.take hcount).length stream).1 := by
  rcases Nat.le_total hcount HashAlgo.all.length with less | more
  · rw [List.length_take_of_le less]
    exact zip_eq_take_zip (length_readBlobs_le hcount stream)
  · obtain ⟨others, rfl⟩ := Nat.exists_eq_add_of_le more
    rw [List.take_of_length_le more, readBlobs_add]
    cases all : (readBlobs HashAlgo.all.length stream).2 with
    | none => rfl
    | some rest =>
        have whole : (HashAlgo.all ++ []).zip ((readBlobs HashAlgo.all.length stream).1 ++
            (readBlobs others rest).1) = _ := List.zip_append (length_readBlobs all).symm
        rwa [List.append_nil, List.zip_nil_left, List.append_nil] at whole

/-- The digests that are read are those that are there. -/
theorem digests_of_blobs {hcount : ℕ} {known others : List (List UInt8)}
    (start : HashAlgo → List UInt8) (first : known.length = (HashAlgo.all.take hcount).length)
    (rest : others.length = hcount - HashAlgo.all.length) :
    (fun algo : HashAlgo => if hcount ≤ algo.index then [] else
      place start ((HashAlgo.all.take hcount).zip known) algo) =
        fun algo => (known ++ others).getD algo.index [] := by
  funext algo
  have bound := algo.index_lt
  rw [List.length_take] at first
  split_ifs with unknown
  · have beyond : (known ++ others).length ≤ algo.index := by
      rw [List.length_append]
      omega
    rw [List.getD_eq_getElem?_getD, List.getElem?_eq_none beyond, Option.getD_none]
  · have there : algo.index < known.length := by omega
    have position : (HashAlgo.all.take hcount)[algo.index]? = some algo := by
      rw [List.getElem?_take_of_lt (Nat.not_le.mp unknown)]
      cases algo <;> rfl
    have distinct : (HashAlgo.all.take hcount).Nodup :=
      (show HashAlgo.all.Nodup by decide).sublist (List.take_sublist _ _)
    rw [List.getD_eq_getElem?_getD, List.getElem?_append_left there,
      List.getElem?_eq_getElem there, Option.getD_some]
    exact place_apply distinct position (List.getElem?_eq_getElem there) start

/-- What is at the front of a stream that has the head of a record. -/
theorem front_of_head {head : Head} {stream rest : List UInt8}
    (read : readHead stream = (.ok head, rest)) :
    front stream = ⟨(readBlobs head.hcount rest).1, (readBlobs head.hcount rest).2.map
      fun left => (head.response (readBlobs head.hcount rest).1, left)⟩ := by
  rw [front, read]

/-- What is at the front of a stream that is cut off before the digests. -/
theorem front_of_no_head {error : ReadError} {stream rest : List UInt8}
    (failed : readHead stream = (.error error, rest)) : front stream = ⟨[], none⟩ := by
  rw [front, failed]

/-- **What `read_responses` reads into a slot**: what is at the front of the stream, unless a
digest is too long. -/
theorem readResponse_of_front {slot : Response} (clean : Clean slot) (stream : List UInt8) :
    ((front stream).Oversized → (readResponse slot stream).1 = .error .assertion) ∧
    (¬ (front stream).Oversized → match (front stream).record with
      | none => Stops (readResponse slot stream)
      | some (res, rest) => readResponse slot stream = (.ok res, rest)) := by
  rw [readResponse_eq]
  rcases read : readHead stream with ⟨error | head, rest⟩
  · rw [front_of_no_head read, ByteReader.bind_of_error read]
    exact ⟨by simp [Front.Oversized], fun _ => ⟨error, stops_of_error avoids_readHead read, rfl⟩⟩
  rw [front_of_head read, ByteReader.bind_of_ok read]
  obtain ⟨fails, reads⟩ :=
    readDigests_of_readBlobs slot.digests (HashAlgo.all.take head.hcount) rest
  rw [← zip_readBlobs] at fails reads
  refine ⟨fun oversized => ?_, fun sound => ?_⟩
  · rw [readRest, ByteReader.fst_bind_of_error (fails oversized)]
  · have counts : head.hcount =
        (HashAlgo.all.take head.hcount).length + (head.hcount - HashAlgo.all.length) := by
      rw [List.length_take]
      omega
    have split := readBlobs_add (HashAlgo.all.take head.hcount).length
      (head.hcount - HashAlgo.all.length) rest
    rw [← counts] at split
    have known := reads fun known member => Nat.not_lt.mp fun long => sound ⟨known, member, long⟩
    cases all : (readBlobs (HashAlgo.all.take head.hcount).length rest).2 with
    | none =>
        rw [all] at known split
        rw [split]
        obtain ⟨error, returned, stopped⟩ := known
        exact ⟨error, returned, by rw [readRest, ByteReader.fst_bind_of_error stopped]⟩
    | some between =>
        rw [all] at known split
        rw [split, readRest, ByteReader.bind_of_ok known]
        cases more : (readBlobs (head.hcount - HashAlgo.all.length) between).2 with
        | none =>
            obtain ⟨error, returned, stopped⟩ := stops_discardDigests more
            exact ⟨error, returned, by rw [ByteReader.fst_bind_of_error stopped]⟩
        | some left =>
            rw [ByteReader.bind_of_ok (discardDigests_of_readBlobs more)]
            have digests := digests_of_blobs slot.digests (length_readBlobs all)
              (length_readBlobs more)
            rw [zip_readBlobs]
            refine Prod.ext (congrArg Except.ok ?_) rfl
            simp only [digests, clean.id, clean.next, clean.prev, clean.flags]
            rfl

/-- A record that is there takes some of the stream. -/
theorem length_of_front {stream rest : List UInt8} {res : Response}
    (whole : (front stream).record = some (res, rest)) : rest.length < stream.length := by
  rcases read : readHead stream with ⟨error | head, between⟩
  · rw [front_of_no_head read] at whole
    cases whole
  · rw [front_of_head read] at whole
    obtain ⟨left, all, same⟩ := Option.map_eq_some_iff.mp whole
    cases same
    have blobs := length_rest_readBlobs all
    have taken := takes_readHead.least read
    omega

/-- What is read is a response in a slot that was cleared. -/
theorem clean_of_front {stream rest : List UInt8} {res : Response}
    (whole : (front stream).record = some (res, rest)) : Clean res := by
  rcases read : readHead stream with ⟨error | head, between⟩
  · rw [front_of_no_head read] at whole
    cases whole
  · rw [front_of_head read] at whole
    obtain ⟨left, -, same⟩ := Option.map_eq_some_iff.mp whole
    cases same
    exact ⟨rfl, rfl, rfl, rfl⟩

/-- The digest of an algorithm among those that are there. -/
theorem mem_zip_all {algo : HashAlgo} {blobs : List (List UInt8)} {buf : List UInt8} :
    (algo, buf) ∈ HashAlgo.all.zip blobs ↔ blobs[algo.index]? = some buf := by
  have position : HashAlgo.all[algo.index]? = some algo := by cases algo <;> rfl
  rw [List.mem_iff_getElem?]
  constructor
  · rintro ⟨index, found⟩
    obtain ⟨known, there⟩ := List.getElem?_zip_eq_some.mp found
    obtain ⟨bound, -⟩ := List.getElem?_eq_some_iff.mp known
    rwa [(List.getElem?_inj bound (by decide)).mp (known.trans position.symm)] at there
  · intro there
    exact ⟨algo.index, List.getElem?_zip_eq_some.mpr ⟨position, there⟩⟩

/-- **A record is oversized** when a digest of it is longer than those of its algorithm. -/
theorem oversized_iff {stream rest : List UInt8} {res : Response}
    (whole : (front stream).record = some (res, rest)) :
    (front stream).Oversized ↔ ∃ algo, algo.digestLen < (res.digests algo).length := by
  rcases read : readHead stream with ⟨error | head, between⟩
  · rw [front_of_no_head read] at whole
    cases whole
  rw [front_of_head read] at whole ⊢
  obtain ⟨left, -, same⟩ := Option.map_eq_some_iff.mp whole
  cases same
  show (∃ known ∈ HashAlgo.all.zip (readBlobs head.hcount between).1, _) ↔
    ∃ algo : HashAlgo, _ < ((readBlobs head.hcount between).1.getD algo.index []).length
  constructor
  · rintro ⟨⟨algo, buf⟩, member, long⟩
    refine ⟨algo, ?_⟩
    rwa [List.getD_eq_getElem?_getD, mem_zip_all.mp member]
  · rintro ⟨algo, long⟩
    rw [List.getD_eq_getElem?_getD] at long
    cases found : (readBlobs head.hcount between).1[algo.index]? with
    | none =>
        rw [found] at long
        exact absurd long (Nat.not_lt_zero _)
    | some buf =>
        rw [found] at long
        exact ⟨(algo, buf), mem_zip_all.mpr found, long⟩

/-! ## A stream -/

/-- What a stream holds: records, and what is cut off after them. -/
def fronts (stream : List UInt8) : List Front :=
  front stream :: match _whole : (front stream).record with
    | none => []
    | some (_, rest) => fronts rest
termination_by stream.length
decreasing_by exact length_of_front _whole

theorem fronts_of_none {stream : List UInt8} (cut : (front stream).record = none) :
    fronts stream = [front stream] := by
  rw [fronts]
  split
  · rfl
  · rename_i whole
    cases cut.symm.trans whole

theorem fronts_of_some {stream rest : List UInt8} {res : Response}
    (whole : (front stream).record = some (res, rest)) :
    fronts stream = front stream :: fronts rest := by
  rw [fronts]
  split
  · rename_i cut
    cases whole.symm.trans cut
  · rename_i same
    cases whole.symm.trans same
    rfl

/-- What is first in a stream, and what follows it. -/
theorem fronts_eq_cons {stream : List UInt8} {first : Front} {others : List Front}
    (split : fronts stream = first :: others) :
    first = front stream ∧ (first.record = none ∧ others = [] ∨
      ∃ res rest, first.record = some (res, rest) ∧ fronts rest = others) := by
  cases whole : (front stream).record with
  | none =>
      rw [fronts_of_none whole, List.cons.injEq] at split
      obtain ⟨rfl, rfl⟩ := split
      exact ⟨rfl, .inl ⟨whole, rfl⟩⟩
  | some record =>
      rw [fronts_of_some whole, List.cons.injEq] at split
      obtain ⟨rfl, after⟩ := split
      exact ⟨rfl, .inr ⟨record.1, record.2, whole, after⟩⟩

/-- The responses that are there. -/
def records (fronts : List Front) : List Response :=
  fronts.filterMap fun front => front.record.map Prod.fst

theorem records_cons_of_none {front : Front} (cut : front.record = none) (others : List Front) :
    records (front :: others) = records others :=
  List.filterMap_cons_none (by rw [cut]; rfl)

theorem records_cons_of_some {front : Front} {res : Response} {rest : List UInt8}
    (whole : front.record = some (res, rest)) (others : List Front) :
    records (front :: others) = res :: records others :=
  List.filterMap_cons_some (by rw [whole]; rfl)

theorem records_append (first second : List Front) :
    records (first ++ second) = records first ++ records second := List.filterMap_append

/-- What is in a stream is at the front of a part of it. -/
theorem exists_of_mem_fronts {stream : List UInt8} {found : Front} (member : found ∈ fronts stream) :
    ∃ part, found = front part := by
  induction stream using fronts.induct with
  | case1 stream later =>
      cases whole : (front stream).record with
      | none =>
          rw [fronts_of_none whole] at member
          exact ⟨stream, List.mem_singleton.mp member⟩
      | some record =>
          rw [fronts_of_some whole] at member
          rcases List.mem_cons.mp member with rfl | among
          · exact ⟨stream, rfl⟩
          · exact later _ _ whole among

/-- Only the last record is cut off. -/
theorem length_records_lt (stream : List UInt8) :
    (records (fronts stream)).length < (fronts stream).length := by
  induction stream using fronts.induct with
  | case1 stream later =>
      cases whole : (front stream).record with
      | none =>
          rw [fronts_of_none whole, records_cons_of_none whole]
          exact Nat.zero_lt_one
      | some record =>
          rw [fronts_of_some whole, records_cons_of_some whole]
          exact Nat.succ_lt_succ (later _ _ whole)

theorem length_records_take {count : ℕ} {stream : List UInt8}
    (before : count < (fronts stream).length) :
    (records ((fronts stream).take count)).length = count := by
  induction count generalizing stream with
  | zero => rfl
  | succ count ih =>
      cases whole : (front stream).record with
      | none =>
          rw [fronts_of_none whole] at before
          exact absurd (Nat.lt_of_succ_lt_succ before) (Nat.not_lt_zero _)
      | some record =>
          rw [fronts_of_some whole] at before ⊢
          rw [List.take_succ_cons, records_cons_of_some whole, List.length_cons,
            ih (Nat.lt_of_succ_lt_succ before)]

/-- A response that is there is one that was at the front of a part of the stream. -/
theorem exists_of_mem_records {stream : List UInt8} {found : List Front}
    (among : ∀ front ∈ found, front ∈ fronts stream) {res : Response} (member : res ∈ records found) :
    ∃ part rest, front part ∈ found ∧ (front part).record = some (res, rest) := by
  obtain ⟨here, inFound, same⟩ := List.mem_filterMap.mp member
  obtain ⟨part, rfl⟩ := exists_of_mem_fronts (among here inFound)
  obtain ⟨⟨_, rest⟩, whole, rfl⟩ := Option.map_eq_some_iff.mp same
  exact ⟨part, rest, inFound, whole⟩

section Slot

variable {slot res : Response} {slots responses : List Response} {stream rest left : List UInt8}
  {fault : Fault}

theorem readResponses_of_assertion (failed : (readResponse slot stream).1 = .error .assertion) :
    (readResponses (slot :: slots) stream).1 = .error .assertion := by
  have read : readResponse slot stream = (.error .assertion, _) := Prod.ext failed rfl
  rw [readResponses, read]

theorem readResponses_of_stops (stops : Stops (readResponse slot stream)) :
    ∃ rest, readResponses (slot :: slots) stream = (.ok [], rest) := by
  obtain ⟨error, returned, stopped⟩ := stops
  have read : readResponse slot stream = (.error error, _) := Prod.ext stopped rfl
  refine ⟨(readResponse slot stream).2, ?_⟩
  rw [readResponses, read]
  cases error with
  | assertion => exact absurd rfl returned
  | uvEof | uvEmsgsize => rfl

theorem readResponses_of_fault (read : readResponse slot stream = (.ok res, rest))
    (failed : (readResponses slots rest).1 = .error fault) :
    (readResponses (slot :: slots) stream).1 = .error fault := by
  rcases later : readResponses slots rest with ⟨result, left⟩
  rw [later] at failed
  cases failed
  rw [readResponses, read]
  simp only [later]

theorem readResponses_of_read (read : readResponse slot stream = (.ok res, rest))
    (later : readResponses slots rest = (.ok responses, left)) :
    readResponses (slot :: slots) stream = (.ok (res :: responses), left) := by
  rw [readResponses, read]
  simp only [later]

end Slot

/-- **What `read_responses` reads into a batch** of slots: what is at the front of the stream,
as much as there are slots for, unless a digest of it is too long. -/
theorem readResponses_of_fronts {slots : List Response} (clean : ∀ slot ∈ slots, Clean slot)
    (stream : List UInt8) :
    ((∃ front ∈ (fronts stream).take slots.length, front.Oversized) →
      (readResponses slots stream).1 = .error .assertion) ∧
    ((∀ front ∈ (fronts stream).take slots.length, ¬ front.Oversized) →
      ∃ rest, readResponses slots stream =
          (.ok (records ((fronts stream).take slots.length)), rest) ∧
        ((records ((fronts stream).take slots.length)).length = slots.length →
          fronts rest = (fronts stream).drop slots.length)) := by
  induction slots generalizing stream with
  | nil => exact ⟨by simp, fun _ => ⟨stream, rfl, fun _ => rfl⟩⟩
  | cons slot slots ih =>
      obtain ⟨here, later⟩ := List.forall_mem_cons.mp clean
      obtain ⟨fails, reads⟩ := readResponse_of_front here stream
      by_cases long : (front stream).Oversized
      · refine ⟨fun _ => readResponses_of_assertion (fails long), fun sound => absurd long ?_⟩
        apply sound _
        rw [fronts]
        exact List.mem_cons_self
      replace reads := reads long
      cases whole : (front stream).record with
      | none =>
          rw [whole] at reads
          obtain ⟨rest, read⟩ := @readResponses_of_stops _ slots _ reads
          rw [fronts_of_none whole, List.length_cons, List.take_succ_cons, List.take_nil,
            records_cons_of_none whole]
          refine ⟨?_, fun _ => ⟨rest, read, nofun⟩⟩
          rintro ⟨only, member, tooLong⟩
          exact absurd (List.mem_singleton.mp member ▸ tooLong) long
      | some record =>
          obtain ⟨res, rest⟩ := record
          rw [whole] at reads
          obtain ⟨failsLater, readsLater⟩ := ih later rest
          rw [fronts_of_some whole, List.length_cons, List.take_succ_cons, List.drop_succ_cons,
            records_cons_of_some whole, List.forall_mem_cons, List.length_cons]
          constructor
          · rintro ⟨first, member, tooLong⟩
            rcases List.mem_cons.mp member with rfl | among
            · exact absurd tooLong long
            · exact readResponses_of_fault reads (failsLater ⟨first, among, tooLong⟩)
          · rintro ⟨-, sound⟩
            obtain ⟨left, read, next⟩ := readsLater sound
            exact ⟨left, readResponses_of_read reads read, fun full => next (Nat.succ.inj full)⟩

end HashArchive.Import
