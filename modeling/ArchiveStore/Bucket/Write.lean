import ArchiveStore.Bucket.Basic
/-!
# Writing to a bucket

The writes of a bucket, as steps of a transaction (`Txn`).

* `putIn` stores a value under a key. With a meta whose chunk size is positive and below the
  value's length, the value is cut into pieces of that size, each piece is appended to the
  chunk bucket under the chunk bucket's next sequence number, and the entry keeps only the
  meta, listing the pieces' keys. Otherwise the value is kept inline. The meta's length is set
  to the value's and the chunks the caller listed are dropped. The chunks of the value that
  was there before are removed afterwards.
* `appendIn` stores a value under the bucket's next sequence number and returns that key.
* `deleteIn` removes an entry and its chunks; `clearIn` removes every entry, every chunk they
  list and the counter.
-/

namespace ArchiveStore

namespace Bytes

/-- Consecutive pieces of `size` bytes; the last may be shorter. -/
def pieces (size : Nat) (bs : Bytes) : List Bytes :=
  if size = 0 then (if bs = [] then [] else [bs])
  else
    match bs with
    | [] => []
    | b :: rest => (b :: rest).take size :: pieces size ((b :: rest).drop size)
termination_by bs.length
decreasing_by simp only [List.length_drop, List.length_cons]; omega

end Bytes

namespace Bucket

/-- Removes the chunks of the record under a table key, if it lists any. -/
def releaseChunks (b : Bucket) (entryKey : Bytes) : Txn Unit := do
  match ← Txn.get? entryKey with
  | none => pure ()
  | some record =>
    let refs := chunkRefs record
    if refs.isEmpty then pure ()
    else
      let store ← Txn.ofExcept b.chunkStore
      for r in refs do
        let _ ← Txn.delete (store.entryKey r)

/-- Stores a value inline with no meta. -/
def putPlainIn (b : Bucket) (key value : Bytes) : Txn Unit := do
  let entryKey := b.entryKey key
  b.releaseChunks entryKey
  Txn.set entryKey (0x00 :: value)

/-- Stores a value with no meta under the bucket's next sequence number; returns the key. -/
def appendPlainIn (b : Bucket) (value : Bytes) : Txn Bytes := do
  let key := Keys.sequence (← Txn.nextSequence b.counter)
  b.putPlainIn key value
  return key

/-- The record of a value with a meta, writing its chunks first if it is to be split. -/
def metaRecordIn (b : Bucket) (value : Bytes) (m : Meta) : Txn Bytes := do
  let split ← Txn.ofExcept m.splitSize
  let m := { m with totalLength := UInt64.ofNat value.length, chunks := [] }
  match split with
  | some size =>
    if size < value.length then
      let store ← Txn.ofExcept b.chunkStore
      let keys ← (Bytes.pieces size value).mapM store.appendPlainIn
      Txn.ofExcept (Envelope.encode ⟨some { m with chunks := keys }, []⟩)
    else Txn.ofExcept (Envelope.encode ⟨some m, value⟩)
  | none => Txn.ofExcept (Envelope.encode ⟨some m, value⟩)

/-- Stores a value under a key, with an optional meta. -/
def putIn (b : Bucket) (key value : Bytes) (info : Option Meta) : Txn Unit := do
  match info with
  | none => b.putPlainIn key value
  | some m =>
    let entryKey := b.entryKey key
    let record ← b.metaRecordIn value m
    b.releaseChunks entryKey
    Txn.set entryKey record

/-- Stores a value under the bucket's next sequence number; returns the key. -/
def appendIn (b : Bucket) (value : Bytes) (info : Option Meta) : Txn Bytes := do
  let key := Keys.sequence (← Txn.nextSequence b.counter)
  b.putIn key value info
  return key

/-- Removes an entry and its chunks; says whether the entry was there. -/
def deleteIn (b : Bucket) (key : Bytes) : Txn Bool := do
  let entryKey := b.entryKey key
  b.releaseChunks entryKey
  Txn.delete entryKey

/-- Removes every entry of the bucket, the chunks they list and the counter. -/
def clearIn (b : Bucket) : Txn Unit := do
  if b.chunked then
    let store := chunks b.space
    for (_, record) in ← Txn.scan b.entries do
      for r in chunkRefs record do
        let _ ← Txn.delete (store.entryKey r)
  Txn.deletePrefix b.keyPrefix

end Bucket

end ArchiveStore
