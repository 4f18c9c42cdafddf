import ArchiveStore.Packed.Reader
import ArchiveStore.Text.Quoted
/-!
# Errors

Every way an operation of the store can fail, one constructor per cause. `StoreError.kind`
sorts the causes into the seven kinds a caller can tell apart, and `StoreError.message` is
the text a caller sees: the kind's prefix, then the cause's details. Names in messages are
shown leniently decoded; a caller's key is also quoted (`Text.quoted`).
-/

namespace ArchiveStore

/-- What the operating system reports when a path cannot be used. -/
inductive IoFailure where
  /-- Something that is not a directory stands where a directory is to be made. -/
  | fileExists
  /-- A path goes through something that is not a directory. -/
  | notADirectory
  /-- A path names nothing. -/
  | noEntry
  /-- A path names a directory where a file is wanted. -/
  | isADirectory
deriving DecidableEq, Repr

/-- The system's description of an I/O failure, with its error number. -/
def IoFailure.message : IoFailure → String
  | .fileExists => "File exists (os error 17)"
  | .notADirectory => "Not a directory (os error 20)"
  | .noEntry => "No such file or directory (os error 2)"
  | .isADirectory => "Is a directory (os error 21)"

/-- Why the storage engine could not use its file. -/
inductive EngineFault where
  /-- The operating system refused the file. -/
  | io (failure : IoFailure)
  /-- The file does not start the way a store file starts. -/
  | invalidData
  /-- The file ends before its header does. -/
  | truncated
  /-- A commit slot names a format version newer than any the engine knows. -/
  | unknownVersion (version : Nat)
  /-- A commit slot names the oldest format version, which must be upgraded by hand. -/
  | upgradeRequired (version : Nat)
deriving DecidableEq, Repr

/-- The engine's description of a fault. -/
def EngineFault.message : EngineFault → String
  | .io failure => "I/O error: " ++ failure.message
  | .invalidData => "I/O error: invalid data"
  | .truncated => "I/O error: failed to fill whole buffer"
  | .unknownVersion v => s!"DB corrupted: Expected file format version <= 3, found {v}"
  | .upgradeRequired v =>
    s!"Manual upgrade required. Expected file format version 2, but file is version {v}"

/-- Why an operation stopped at a broken internal expectation rather than failing cleanly. -/
inductive Abort where
  /-- A stored bucket name too long to build a key from. -/
  | unkeyableName (length : Nat)
  /-- A store file whose header the engine accepts but cannot lay out. -/
  | unusableHeader
deriving DecidableEq, Repr

/-- The kinds of failure a caller can tell apart. -/
inductive ErrorKind where
  | notFound
  | invalidArgument
  | unsupported
  | readOnly
  | decode
  | engine
  | io
  | assertion
deriving DecidableEq, Repr

/-- The name of a kind of failure. -/
def ErrorKind.label : ErrorKind → String
  | .notFound => "NotFound"
  | .invalidArgument => "InvalidArgument"
  | .unsupported => "Unsupported"
  | .readOnly => "ReadOnly"
  | .decode => "Decode"
  | .engine => "Engine"
  | .io => "Io"
  | .assertion => "Panic"

/-- Why an operation of the store failed. -/
inductive StoreError where
  /-- No entry under a caller's key in a bucket. -/
  | missingKey (key bucket : Bytes)
  /-- A chunk that a chunked value lists is not in the chunk bucket. -/
  | missingChunk (chunkKey : Bytes)
  /-- No user bucket of that name is registered in the namespace. -/
  | missingBucket (bucket space : Bytes)
  /-- No namespace of that name is registered. -/
  | missingNamespace (space : Bytes)
  /-- A read-only open found no store file at the path. -/
  | missingStore (path : String)
  /-- A namespace or bucket name is empty; `what` says which. -/
  | emptyName (what : String)
  /-- A namespace or bucket name is longer than 255 bytes. -/
  | longName (what : String) (length : Nat)
  /-- A meta asks for a negative chunk size. -/
  | negativeChunkSize (size : Int)
  /-- A meta's packed form does not fit a 32-bit length. -/
  | metaTooLarge (length : Nat)
  /-- A value needs chunks but the bucket has no chunk bucket. -/
  | noChunkStore (bucket : Bytes)
  /-- A ranged read starts outside the value. -/
  | offsetOutOfRange (offset length : Nat)
  /-- A sequence counter has reached the largest 64-bit number. -/
  | counterExhausted
  /-- A document nests lists and documents deeper than the limit. -/
  | documentTooDeep (limit : Nat)
  /-- A cursor is read before its first step (`finished = false`) or after its last. -/
  | notPositioned (finished : Bool)
  /-- Bounded key ranges are refused; `operation` names the refusing operation. -/
  | boundedRange (operation : String)
  /-- A write on a store opened read-only. -/
  | readOnly
  /-- A record with no bytes at all. -/
  | emptyRecord
  /-- A record flagged as carrying a meta is too short to hold the meta's length. -/
  | shortMetaLength (got : Nat)
  /-- A record announces a longer meta than it holds. -/
  | shortMeta (expected got : Nat)
  /-- A record starts with a flag other than 0 and 1. -/
  | unknownFlag (flag : UInt8)
  /-- A record's meta is not in the packed layout. -/
  | badMeta (e : PackError)
  /-- A stored document is not in the packed layout. -/
  | badDocument (e : PackError)
  /-- A stored name list is not in the packed layout. -/
  | badNameList (e : PackError)
  /-- A sequence number that is not eight bytes long. -/
  | badSequence (length : Nat)
  /-- A chunked value whose meta has no usable chunk size. -/
  | badChunkSize (size : Int)
  /-- A chunked value's length does not fit its chunk count and chunk size; `low` and `high`
  are the bounds as computed, with saturation. -/
  | layoutMismatch (total count size low high : Nat)
  /-- A chunked value's chunks join to the wrong length. -/
  | lengthMismatch (joined total : Nat)
  /-- A chunk is shorter than the part of it a ranged read skips. -/
  | shortChunk (index length skip : Nat)
  /-- A chunked value in a bucket that has no chunk bucket. -/
  | chunksOutsideNamespace
  /-- The storage engine could not use its file. -/
  | engine (fault : EngineFault)
  /-- The operating system refused a path. -/
  | io (failure : IoFailure)
  /-- A broken internal expectation stopped the operation. -/
  | aborted (why : Abort)
deriving DecidableEq, Repr

namespace StoreError

/-- The kind of a failure. -/
def kind : StoreError → ErrorKind
  | missingKey .. | missingChunk .. | missingBucket .. | missingNamespace .. | missingStore .. =>
    .notFound
  | emptyName .. | longName .. | negativeChunkSize .. | metaTooLarge .. | noChunkStore ..
  | offsetOutOfRange .. | counterExhausted | documentTooDeep .. | notPositioned .. =>
    .invalidArgument
  | boundedRange .. => .unsupported
  | readOnly => .readOnly
  | emptyRecord | shortMetaLength .. | shortMeta .. | unknownFlag .. | badMeta .. | badDocument ..
  | badNameList .. | badSequence .. | badChunkSize .. | layoutMismatch .. | lengthMismatch ..
  | shortChunk .. | chunksOutsideNamespace => .decode
  | engine .. => .engine
  | io .. => .io
  | aborted .. => .assertion

/-- Two lowercase hexadecimal digits. -/
def hexByte (b : UInt8) : String := Bytes.hex [b]

/-- The details of a failure, without the prefix of its kind. -/
def detail : StoreError → String
  | missingKey key bucket =>
    s!"key {Text.quoted (Utf8.decodeLossy key)} in bucket {Utf8.decodeLossy bucket}"
  | missingChunk chunkKey =>
    "chunk [" ++ ", ".intercalate (chunkKey.map hexByte) ++ "] is missing"
  | missingBucket bucket space =>
    s!"bucket {Utf8.decodeLossy bucket} in namespace {Utf8.decodeLossy space}"
  | missingNamespace space => s!"namespace {Utf8.decodeLossy space}"
  | missingStore path => s!"no store at {path}"
  | emptyName what => s!"{what} name cannot be empty"
  | longName what length => s!"{what} name is {length} bytes (max 255)"
  | negativeChunkSize size => s!"invalid chunk size {size}"
  | metaTooLarge length => s!"meta too large: {length} bytes"
  | noChunkStore bucket => s!"bucket {Utf8.decodeLossy bucket} cannot hold chunked values"
  | offsetOutOfRange offset length => s!"offset {offset} out of range for {length} byte value"
  | counterExhausted => "sequence counter exhausted"
  | documentTooDeep limit => s!"document nested deeper than {limit}"
  | notPositioned finished =>
    if finished then "iterator is not positioned (Exhausted)"
    else "iterator is not positioned (Unstarted)"
  | boundedRange operation => s!"{operation} over a bounded key range"
  | readOnly => ""
  | emptyRecord => "empty record"
  | shortMetaLength got => s!"incomplete meta length: expected 4 bytes, got {got}"
  | shortMeta expected got => s!"incomplete meta: expected {expected} bytes, got {got}"
  | unknownFlag flag => s!"unknown record flag: 0x{hexByte flag}"
  | badMeta e => "failed to decode meta: " ++ e.message
  | badDocument e => "failed to decode document: " ++ e.message
  | badNameList e => "failed to decode name list: " ++ e.message
  | badSequence length => s!"sequence must be 8 bytes, got {length}"
  | badChunkSize size => s!"chunked value with invalid chunk size {size}"
  | layoutMismatch total count size low high =>
    s!"meta says {total} bytes, {count} chunks of {size} bytes hold {low}..={high}"
  | lengthMismatch joined total => s!"chunked value is {joined} bytes, meta says {total}"
  | shortChunk index length skip =>
    s!"chunk {index} is {length} bytes, expected at least {skip}"
  | chunksOutsideNamespace => "entry references chunks outside a namespace"
  | engine fault => fault.message
  | io failure => failure.message
  | aborted _ => "panic"

/-- The text a caller sees for a failure. -/
def message (e : StoreError) : String :=
  match e.kind with
  | .notFound => "Not found: " ++ e.detail
  | .invalidArgument => "Invalid argument: " ++ e.detail
  | .unsupported => "Unsupported: " ++ e.detail
  | .readOnly => "Database is opened read-only"
  | .decode => "Decode error: " ++ e.detail
  | .engine => "Engine error: " ++ e.detail
  | .io => "IO error: " ++ e.detail
  | .assertion => e.detail

end StoreError

end ArchiveStore
