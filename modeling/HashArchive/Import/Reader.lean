import HashArchive.Foundations.ByteReader
import HashArchive.Queue.System

/-!
# The import socket

`connection` of `import.c` reads responses from a stream of bytes, up to 50 at a time,
and stores each batch in a transaction of its own. Reading stops at the first response
that is cut off or has a string or a digest that is too long; the responses read before
it are stored all the same.

The slots of a batch are used again for the next one. Every field that is read is
overwritten (`readResponse`), and a slot that is not filled is not looked at: a batch
with such a slot is the last one.

The server model sends responses to a connection as they are (`importBatch`); here they
come as bytes. Both store a batch by `importTxn`.
-/

set_option autoImplicit false

namespace HashArchive.Import

open Db Hash Queue

/-- Why a response is not read to its end. -/
inductive ReadError where
  | uvEof
  | uvEmsgsize
  /-- A failed assertion, which ends the process. -/
  | assertion
deriving DecidableEq, Repr

/-- A function that reads from the stream of a connection. -/
abbrev StreamReader (α : Type) : Type := ByteReader ReadError α

/-- `read_len`. A stream that has ended gives fewer bytes. -/
def readLen (len : ℕ) : StreamReader { bytes : List UInt8 // bytes.length = len } :=
  ByteReader.exactly .uvEof len

/-- `read_uint16`. -/
def readUint16 : StreamReader ℕ := do
  let x ← readLen 2
  pure (bigEndian x)

/-- `read_uint64`. -/
def readUint64 : StreamReader ℕ := do
  let x ← readLen 8
  pure (bigEndian x)

/-- The characters of a buffer. -/
def chars (bytes : List UInt8) : List Char := bytes.map fun byte => Char.ofNat byte.toNat

/-- The string in a buffer that does not fill its array is a string of the array. -/
theorem length_cString_chars_lt {bytes : List UInt8} {len max : ℕ} (length : bytes.length = len)
    (fits : len + 1 ≤ max) : (cString (chars bytes)).length < max := by
  have shorter : (cString (chars bytes)).length ≤ (chars bytes).length :=
    (List.takeWhile_sublist _).length_le
  rw [chars, List.length_map, length] at shorter
  exact Nat.lt_of_le_of_lt shorter fits

/-- `read_string`. What is left in the buffer is a string up to its first NUL. -/
def readString (max : ℕ) : StreamReader { text : Str // text.length < max } := do
  let len ← readUint16
  if fits : len + 1 ≤ max then
    let out ← readLen len
    pure ⟨cString (chars out), length_cString_chars_lt out.property fits⟩
  else ByteReader.fail .uvEmsgsize

/-- `read_blob`. -/
def readBlob (max : ℕ) : StreamReader (List UInt8) := do
  let len ← readUint16
  if len ≤ max then
    let out ← readLen len
    pure out
  else ByteReader.fail .uvEmsgsize

/-- The digests of known algorithms. -/
def readDigests (digests : HashAlgo → List UInt8) :
    List HashAlgo → StreamReader (HashAlgo → List UInt8)
  | [] => pure digests
  | algo :: algos => do
    let buf ← readBlob hashDigestMax
    if buf.length ≤ algo.digestLen then readDigests (Function.update digests algo buf) algos
    else ByteReader.fail .assertion

/-- The digests of unknown algorithms. -/
def discardDigests : ℕ → StreamReader Unit
  | 0 => pure ()
  | count + 1 => do
    let _ ← readBlob hashDigestMax
    discardDigests count

/-- One turn of the loop of `read_responses`. -/
def readResponse (slot : Response) : StreamReader Response := do
  let time ← readUint64
  let url ← readString uriMax
  let tmp ← readUint64
  let type ← readString typeMax
  let length ← readUint64
  let hcount ← readUint16
  let digests ← readDigests slot.digests (HashAlgo.all.take hcount)
  discardDigests (hcount - HashAlgo.all.length)
  pure { slot with
    time := time
    url := url
    status := Int.bmod (tmp - 0xffff) (2 ^ 32)
    type := type
    length := length
    digests := fun algo => if hcount ≤ algo.index then [] else digests algo
    url_lt := url.property
    type_lt := type.property }

/-- `read_responses`: the slots that were filled. -/
def readResponses : List Response → List UInt8 → Except Fault (List Response) × List UInt8
  | [], stream => (.ok [], stream)
  | slot :: slots, stream =>
    match readResponse slot stream with
    | (.ok res, rest) =>
      match readResponses slots rest with
      | (.ok responses, rest) => (.ok (res :: responses), rest)
      | (.error fault, rest) => (.error fault, rest)
    | (.error .assertion, rest) => (.error .assertion, rest)
    | (.error _, rest) => (.ok [], rest)

/-! ## Progress -/

theorem takes_readLen (len : ℕ) : (readLen len).Takes len := .exactly _ len

theorem takes_readUint16 : readUint16.Takes 2 := (takes_readLen 2).bind fun _ => .pure _

theorem takes_readUint64 : readUint64.Takes 8 := (takes_readLen 8).bind fun _ => .pure _

theorem takes_readString (max : ℕ) : (readString max).Takes 2 := by
  apply takes_readUint16.bind
  intro len
  split_ifs with fits
  · exact (takes_readLen len).zero.bind fun _ => .pure _
  · exact .fail _ _

theorem takes_readBlob (max : ℕ) : (readBlob max).Takes 2 := by
  apply takes_readUint16.bind
  intro len
  split_ifs with fits
  · exact (takes_readLen len).zero.bind fun _ => .pure _
  · exact .fail _ _

theorem takes_readDigests (digests : HashAlgo → List UInt8) (algos : List HashAlgo) :
    (readDigests digests algos).Takes 0 := by
  induction algos generalizing digests with
  | nil => exact .pure _
  | cons algo algos ih =>
      apply (takes_readBlob _).zero.bind
      intro buf
      split_ifs with fits
      · exact ih _
      · exact .fail _ _

theorem takes_discardDigests (count : ℕ) : (discardDigests count).Takes 0 := by
  induction count with
  | zero => exact .pure _
  | succ count ih => exact (takes_readBlob _).zero.bind fun _ => ih

/-- A response has a time. -/
theorem takes_readResponse (slot : Response) : (readResponse slot).Takes 8 := by
  apply takes_readUint64.bind
  intro time
  apply (takes_readString _).zero.bind
  intro url
  apply takes_readUint64.zero.bind
  intro tmp
  apply (takes_readString _).zero.bind
  intro type
  apply takes_readUint64.zero.bind
  intro length
  apply takes_readUint16.zero.bind
  intro hcount
  exact (takes_readDigests _ _).bind fun digests => (takes_discardDigests _).bind fun _ => .pure _

/-- **A batch leaves less of the stream** than there was, unless it is empty. -/
theorem length_of_readResponses {slots responses : List Response} {stream rest : List UInt8}
    (done : readResponses slots stream = (.ok responses, rest)) :
    rest.length + responses.length ≤ stream.length := by
  induction slots generalizing stream responses with
  | nil =>
      cases done
      exact Nat.le_refl _
  | cons slot slots ih =>
      rw [readResponses] at done
      have shrinks := (takes_readResponse slot).shrinks stream
      rcases read : readResponse slot stream with ⟨error | res, between⟩
      · rw [read] at done shrinks
        cases error with
        | assertion => cases done
        | uvEof | uvEmsgsize =>
            cases done
            exact shrinks
      · have here := (takes_readResponse slot).least read
        rw [read] at done
        rcases more : readResponses slots between with ⟨fault | filled, last⟩
        · simp only [more] at done
          cases done
        · simp only [more] at done
          cases done
          have later := ih more
          rw [List.length_cons]
          omega

/-! ## A connection -/

theorem responseBatchSize_pos : 0 < responseBatchSize := by decide

/-- The loop of `connection`. The result is that of the last batch, with the store as it
is left. -/
def connectionLoop (slots : List Response) (id : ℕ) (stream : List UInt8) (db : Database) :
    Result Unit × Database :=
  match _read : readResponses slots stream with
  | (.error fault, _) => (.error (.fault fault), db)
  | (.ok responses, rest) =>
    match Txn.commit (importTxn responses id) db with
    | (.error failure, db) => (.error failure, db)
    | (.ok nextId, db) =>
      if _last : responses.length < responseBatchSize then (.ok (), db)
      else connectionLoop responses nextId rest db
termination_by stream.length
decreasing_by
  have shorter := length_of_readResponses _read
  have positive := responseBatchSize_pos
  omega

/-- `connection`, for a client that sends some bytes and closes the connection. -/
def connection (stream : List UInt8) (db : Database) : Result Unit × Database :=
  connectionLoop (List.replicate responseBatchSize Response.blank) 0 stream db

section Batch

variable {slots responses : List Response} {id : ℕ} {stream rest : List UInt8} {db : Database}
  (read : readResponses slots stream = (.ok responses, rest))
include read

/-- A batch that cannot be stored ends the connection. -/
theorem connectionLoop_of_error {failure : Failure} {copy : Database}
    (failed : importTxn responses id db = (.error failure, copy)) :
    connectionLoop slots id stream db = (.error failure, db) := by
  have commit := Txn.commit_of_error failed
  rw [connectionLoop]
  split
  · rename_i same
    cases read.symm.trans same
  · rename_i same
    cases read.symm.trans same
    rw [commit]

/-- A batch that is stored, and the next one if there is one. -/
theorem connectionLoop_of_ok {nextId : ℕ} {after : Database}
    (done : importTxn responses id db = (.ok nextId, after)) :
    connectionLoop slots id stream db =
      if responses.length < responseBatchSize then (.ok (), after)
      else connectionLoop responses nextId rest after := by
  have commit := Txn.commit_of_ok done
  conv_lhs => rw [connectionLoop]
  split
  · rename_i same
    cases read.symm.trans same
  · rename_i same
    cases read.symm.trans same
    rw [commit]
    rfl

end Batch

end HashArchive.Import
