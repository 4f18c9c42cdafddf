import ArchiveStore.Error
/-!
# Meta

What the store keeps beside a binary value: its mime type, the chunk size the caller asked
for, and, filled in when the value is stored, its length and the keys of its chunks in the
namespace's chunk bucket. A value is chunked exactly when its chunk list is not empty.

In the packed layout a meta is its mime type, chunk size, total length and chunk list, in
this order (`Meta.pack`, `Meta.reader`).
-/

namespace ArchiveStore

/-- Metadata of a stored value. -/
structure Meta where
  /-- The mime type, e.g. `image/jpeg`. -/
  mime : String := ""
  /-- Values longer than this are split into chunks; 0 stores every value inline. -/
  chunkSize : Int64 := 0
  /-- The length of the value. -/
  totalLength : UInt64 := 0
  /-- The keys of the value's chunks in the chunk bucket, in order. -/
  chunks : List Bytes := []
deriving DecidableEq, Repr

namespace Meta

/-- The meta of an inline value of the given mime type. -/
def new (mime : String) : Meta := { mime }

/-- The same meta asking for chunks of `size` bytes. -/
def withChunkSize (m : Meta) (size : Int64) : Meta := { m with chunkSize := size }

/-- Whether the value lives in the chunk bucket. -/
def isChunked (m : Meta) : Bool := !m.chunks.isEmpty

/-- The size to split values by, `none` to keep them inline, or an error for a negative
size. -/
def splitSize (m : Meta) : Except StoreError (Option Nat) :=
  if m.chunkSize = 0 then .ok none
  else if m.chunkSize < 0 then .error (.negativeChunkSize m.chunkSize.toInt)
  else .ok (some m.chunkSize.toInt.toNat)

/-- The packed form of a meta. -/
def pack (m : Meta) : Bytes :=
  Packed.text m.mime ++ Packed.i64 m.chunkSize ++ Packed.u64 m.totalLength.toNat
    ++ Packed.list Packed.bytes m.chunks

/-- Reads a meta in the packed layout. -/
def reader : Packed.Reader Meta := do
  let mime ← Packed.readText
  let chunkSize ← Packed.readI64
  let total ← Packed.readU64
  let chunks ← Packed.readList Packed.readBytes
  return { mime, chunkSize, totalLength := UInt64.ofNat total, chunks }

end Meta

end ArchiveStore
