import ArchiveStore.Table
import ArchiveStore.Record.Envelope
/-!
# Buckets

A bucket is a named part of a namespace's keys. Every namespace has three builtin buckets:
`d` for documents, `o` for binary objects and `t` for the chunks of large values; callers add
user buckets by name. A bucket is fully described by its namespace's prefix, its kind, its
name, and whether it may split values into chunks, which every bucket but `t` may: their
chunks all go to the namespace's `t`.

This module holds the description and the key arithmetic; `Bucket.Write` and `Bucket.Read`
hold the operations.
-/

namespace ArchiveStore

/-- Where a bucket keeps its entries and where its chunks go. -/
structure Bucket where
  /-- The key prefix of the bucket's namespace. -/
  space : Bytes
  kind : BucketKind
  name : Bytes
  /-- Whether values may be split into chunks in the namespace's chunk bucket. -/
  chunked : Bool
deriving DecidableEq, Repr

namespace Bucket

/-- The bucket of documents of a namespace. -/
def documents (space : Bytes) : Bucket := ⟨space, .builtin, Keys.documentBucket, true⟩

/-- The bucket of binary objects of a namespace. -/
def objects (space : Bytes) : Bucket := ⟨space, .builtin, Keys.objectBucket, true⟩

/-- The bucket of chunks of a namespace; it holds no chunked values itself. -/
def chunks (space : Bytes) : Bucket := ⟨space, .builtin, Keys.chunkBucket, false⟩

/-- A user bucket of a namespace. -/
def user (space : Bytes) (name : Bytes) : Bucket := ⟨space, .user, name, true⟩

/-- The prefix of every key of the bucket. -/
def keyPrefix (b : Bucket) : Bytes := Keys.bucketPrefix b.space b.kind b.name

/-- The prefix of the bucket's entries. -/
def entries (b : Bucket) : Bytes := Keys.entryPrefix b.keyPrefix

/-- The key of the bucket's sequence counter. -/
def counter (b : Bucket) : Bytes := Keys.sequenceKey b.keyPrefix

/-- The table key of a caller's key. -/
def entryKey (b : Bucket) (key : Bytes) : Bytes := Keys.entryKey b.entries key

/-- The bucket that holds this bucket's chunks, or the error of a bucket that has none. -/
def chunkStore (b : Bucket) : Except StoreError Bucket :=
  if b.chunked then .ok (chunks b.space) else .error (.noChunkStore b.name)

/-- The chunk keys an envelope lists; an unreadable record lists none. -/
def chunkRefs (record : Bytes) : List Bytes :=
  match Envelope.decode record with
  | .ok e => match e.info with
    | some m => m.chunks
    | none => []
  | .error _ => []

end Bucket

end ArchiveStore
