import ArchiveStore.Bucket.Basic
import ArchiveStore.Record.Layout
/-!
# Reading from a bucket

The reads of a bucket, each on one table as it stood when the read began.

* `get` returns an entry's value and meta; a chunked value is joined from its chunks, which
  must all exist and together be exactly as long as the meta says.
* `getAt` copies up to `len` bytes from `offset` on. For a chunked value it reads only the
  chunks it needs, starting at chunk `offset / size`.
* `getMeta`, `contains` and `count` look at an entry's meta, its presence, and the number of
  entries.
-/

namespace ArchiveStore

namespace Bucket

/-- The record under a caller's key. -/
def record (b : Bucket) (t : Table) (key : Bytes) : Except StoreError Bytes :=
  match t.get? (b.entryKey key) with
  | some r => .ok r
  | none => .error (.missingKey key b.name)

/-- The payload of a chunk of this chunk bucket. -/
def readChunk (b : Bucket) (t : Table) (chunkKey : Bytes) : Except StoreError Bytes :=
  match t.get? (b.entryKey chunkKey) with
  | none => .error (.missingChunk chunkKey)
  | some r => do return (← Envelope.decode r).payload

/-- The payloads of chunks of this chunk bucket, joined. -/
def readChunks (b : Bucket) (t : Table) : List Bytes → Except StoreError Bytes
  | [] => .ok []
  | k :: ks => do
    let chunk ← b.readChunk t k
    let rest ← b.readChunks t ks
    return chunk ++ rest

/-- The value of a chunked meta, joined from this chunk bucket. -/
def joinChunks (b : Bucket) (t : Table) (m : Meta) : Except StoreError Bytes := do
  let _ ← m.layout
  let value ← b.readChunks t m.chunks
  if value.length = m.totalLength.toNat then return value
  else .error (.lengthMismatch value.length m.totalLength.toNat)

/-- Up to `want` bytes from the chunks `keys` of this chunk bucket, skipping `skip` bytes of
the first; `index` is the position of the first chunk in the value's chunk list. -/
def copyChunks (b : Bucket) (t : Table) : List Bytes → Nat → Nat → Nat → Except StoreError Bytes
  | [], _, _, _ => .ok []
  | k :: ks, index, skip, want =>
    if want = 0 then .ok []
    else do
      let chunk ← b.readChunk t k
      if chunk.length < skip then .error (.shortChunk index chunk.length skip)
      else
        let piece := (chunk.drop skip).take want
        let rest ← b.copyChunks t ks (index + 1) 0 (want - piece.length)
        return piece ++ rest

/-- Up to `want` bytes of a chunked value from `offset` on, read from this chunk bucket. -/
def readChunksAt (b : Bucket) (t : Table) (m : Meta) (want offset : Nat) :
    Except StoreError Bytes := do
  let (total, size) ← m.layout
  if offset > total then .error (.offsetOutOfRange offset total)
  else
    let index := offset / size
    b.copyChunks t (m.chunks.drop index) index (offset % size) want

/-- An entry's value and meta. -/
def get (b : Bucket) (t : Table) (key : Bytes) : Except StoreError (Bytes × Option Meta) := do
  let e ← Envelope.decode (← b.record t key)
  match e.info with
  | some m =>
    if m.isChunked then
      let store ← b.chunkStore
      return (← store.joinChunks t m, some m)
    else return (e.payload, some m)
  | none => return (e.payload, none)

/-- Up to `want` bytes of an entry's value from `offset` on. -/
def getAt (b : Bucket) (t : Table) (key : Bytes) (want offset : Nat) :
    Except StoreError Bytes := do
  let e ← Envelope.decode (← b.record t key)
  match e.info with
  | some m =>
    if m.isChunked then
      let store ← b.chunkStore
      store.readChunksAt t m want offset
    else
      if offset ≥ e.payload.length then .error (.offsetOutOfRange offset e.payload.length)
      else return (e.payload.drop offset).take want
  | none =>
    if offset ≥ e.payload.length then .error (.offsetOutOfRange offset e.payload.length)
    else return (e.payload.drop offset).take want

/-- An entry's meta. -/
def getMeta (b : Bucket) (t : Table) (key : Bytes) : Except StoreError (Option Meta) := do
  return (← Envelope.decode (← b.record t key)).info

/-- Whether an entry exists under a caller's key. -/
def contains (b : Bucket) (t : Table) (key : Bytes) : Bool := t.contains (b.entryKey key)

/-- The number of entries. -/
def count (b : Bucket) (t : Table) : Nat := (t.scan b.entries).length

end Bucket

end ArchiveStore
