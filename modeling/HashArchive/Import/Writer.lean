import HashArchive.Foundations.ByteReader
import HashArchive.Util.HashCodec
import HashArchive.Util.Url

/-!
# Writing responses for an import

`write_response` of `hximport.js` writes one response as bytes for the import socket.
A time or a length that is not known is `null` and is written as eight bytes `0xff`;
other numbers are written with six bytes after two that are zero. A status is written
with 0xffff added to it. There are seven digests, of which the archive knows five.

A `Buffer` that is made with a size is taken to be filled with zeros. Strings are given
by their bytes in UTF-8.
-/

set_option autoImplicit false

namespace HashArchive.Import

open Hash

/-- The names in `ALGOS`. -/
inductive Algo where
  | known (algo : HashAlgo)
  | blake2s
  | blake2b
deriving DecidableEq, Repr

/-- `ALGOS`. -/
def algos : List Algo := HashAlgo.all.map .known ++ [.blake2s, .blake2b]

/-- `ALGO_MAX`. -/
def algoMax : ℕ := 7

/-- The properties of a response that `write_response` reads. A digest that is absent is
`undefined`. -/
structure JsResponse where
  time : Option ℤ
  url : List UInt8
  status : ℤ
  type : List UInt8
  length : Option ℤ
  digests : Algo → Option (List UInt8)

/-- `write_uint16`. -/
def writeUint16 (val : ℕ) : List UInt8 := bigEndianBytes 2 val

/-- `write_uint64`. -/
def writeUint64 : Option ℤ → List UInt8
  | none => List.replicate 8 0xff
  | some val => if val = -1 then List.replicate 8 0xff else 0 :: 0 :: bigEndianBytes 6 val.toNat

/-- `write_string`. -/
def writeString (str : List UInt8) : List UInt8 := writeUint16 str.length ++ str

/-- `write_blob`. -/
def writeBlob : Option (List UInt8) → List UInt8
  | none => writeUint16 0
  | some buf => writeUint16 buf.length ++ buf

/-- `write_response`. -/
def writeResponse (res : JsResponse) : List UInt8 :=
  writeUint64 res.time ++
  writeString res.url ++
  writeUint64 (some (res.status + 0xffff)) ++
  writeString res.type ++
  writeUint64 res.length ++
  writeUint16 algoMax ++
  algos.flatMap fun algo => writeBlob (res.digests algo)

/-- What a client sends for some responses. -/
def stream (responses : List JsResponse) : List UInt8 := responses.flatMap writeResponse

end HashArchive.Import
