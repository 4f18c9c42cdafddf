import ArchiveStore.Console.Command
import ArchiveStore.Console.Log
import ArchiveStore.Database.Open
import ArchiveStore.Document.Debug
import ArchiveStore.Document.Json
import ArchiveStore.Text.Base64

/-!
# Running the inspection tool

`Console.execute` runs the tool on a host's files. The tool opens the store of its data
directory read-only for every command but `compact`, which opens it for writing and so makes
the directory and the store if need be. A command that fails logs the failure's message at
level ERROR and ends the run with status 1.

The store logs, at level INFO, that it opened its file, that it registered a namespace or a
user bucket, that it compacted its file, and that it closed.

What each command prints:

* `namespaces`: each stored namespace name on a line of its own;
* `buckets`: each stored user bucket name of the namespace;
* `get`: a document in the debug layout or as JSON; or an entry's value bytes as they are,
  with a line `mime=.. total_len=.. chunks=..` on standard error when it has a meta; or the
  entry as JSON, its value in base64;
* `count`: the number of entries of the bucket;
* `compact`: `compacted` and the store file's path.

Names are shown with invalid UTF-8 replaced, and the tool registers the namespace and bucket
it reads, as any client does, so an invalid name is refused before anything is read.
-/

namespace ArchiveStore.Console

/-- What a run of the tool printed and how it ended. -/
structure Outcome where
  code : Nat
  stdout : Bytes
  /-- The text written to standard error. -/
  stderr : String
deriving DecidableEq, Repr

/-- What a run has printed so far, on standard output and on standard error. -/
structure Printed where
  stdout : Bytes := []
  stderr : String := ""

/-- A step of a command: it may fail, and it keeps what was printed before a failure. -/
abbrev Tool := ExceptT StoreError (StateM Printed)

/-- Prints bytes on standard output. -/
def write (b : Bytes) : Tool Unit :=
  modify fun p => { p with stdout := p.stdout ++ b }

/-- Prints text on standard error. -/
def note (s : String) : Tool Unit :=
  modify fun p => { p with stderr := p.stderr ++ s }

/-- Logs an event on standard error. -/
def emit (e : LogEvent) : Tool Unit := note e.text

/-- A result of the store as a step. -/
def attempt {α : Type} (r : Except StoreError α) : Tool α :=
  match r with
  | .ok a => pure a
  | .error e => throw e

/-- The span around every event of an open store. -/
def storeSpan : LogSpan := { name := "archivedb" }

/-- An INFO event of the store. -/
def storeEvent (spans : List LogSpan) (target message : String)
    (fields : List (String × String)) : LogEvent :=
  { level := .info, spans := storeSpan :: spans, target, message, fields }

/-- The event of a store that opened its file. -/
def openedEvent (path : String) (readOnly : Bool) : LogEvent :=
  storeEvent [] "archivedb::engine" "engine opened" [("path", path), ("read_only", toString readOnly)]

/-- The event of a namespace registered. -/
def spaceEvent (space : Bytes) : LogEvent :=
  storeEvent [] "archivedb::database" "namespace created" [("namespace", Utf8.decodeLossy space)]

/-- The event of a user bucket registered, inside its namespace's span. -/
def bucketEvent (space name : Bytes) : LogEvent :=
  storeEvent [{ name := "namespace", fields := [("name", Utf8.decodeLossy space)] }]
    "archivedb::namespace" "bucket created" [("bucket", Utf8.decodeLossy name)]

/-- The event of a compacted store file. -/
def compactedEvent : LogEvent :=
  storeEvent [] "archivedb::engine" "compaction finished" [("compacted", "true")]

/-- The event of a store closed. -/
def closedEvent : LogEvent := storeEvent [] "archivedb::database" "database closed" []

/-- The event of a failed command. -/
def failureEvent (e : StoreError) : LogEvent :=
  { level := .error, target := "archivedb_ctl", message := e.message }

/-- Names, each on a line of its own. -/
def nameLines (names : List Bytes) : Bytes :=
  Bytes.ofString (String.join (names.map fun n => Utf8.decodeLossy n ++ "\n"))

/-- An entry as the JSON object `get --json` prints. -/
def entryJson (key : String) (value : Bytes) (info : Option Meta) : String :=
  let metaText := match info with
    | none => "null"
    | some m =>
      Json.object [("chunk_size", toString m.chunkSize.toInt), ("chunks", toString m.chunks.length),
        ("mime", Json.quote m.mime), ("total_len", toString m.totalLength.toNat)]
  Json.object [("key", Json.quote key), ("meta", metaText), ("value", Json.quote (Text.base64 value))]

/-- The line `get` writes to standard error about an entry's meta. -/
def metaLine (m : Meta) : String :=
  "mime=" ++ m.mime ++ " total_len=" ++ toString m.totalLength.toNat ++ " chunks=" ++
    toString m.chunks.length ++ "\n"

/-- Registers the namespace a command reads. -/
def registerSpace (db : Database) (space : Bytes) : Tool Database := do
  let (_, db) ← attempt (db.createNamespace space)
  emit (spaceEvent space)
  return db

/-- The bucket of a namespace a command reads: a user bucket, registered first, or the object
bucket. -/
def bucketFor (db : Database) (space : Bytes) : Option String → Tool (Bucket × Database)
  | some name => do
    let (_, db) ← attempt (db.createBucket space (Bytes.ofString name))
    emit (bucketEvent space (Bytes.ofString name))
    return (Bucket.user (Space.keyPrefix space) (Bytes.ofString name), db)
  | none => return (Bucket.objects (Space.keyPrefix space), db)

/-- Carries out a command on the open store of a data directory. -/
def perform (db : Database) (dataDir : String) : Command → Tool Database
  | .namespaces => do
    write (nameLines (← attempt db.storedNamespaces))
    return db
  | .buckets space => do
    let db ← registerSpace db (Bytes.ofString space)
    write (nameLines (← attempt (db.storedBuckets (Bytes.ofString space))))
    return db
  | .get space bucket document json key => do
    let ns := Bytes.ofString space
    let db ← registerSpace db ns
    if document then
      let d ← attempt (db.getDocument (Bucket.documents (Space.keyPrefix ns)) (Bytes.ofString key))
      write (Bytes.ofString (if json then d.jsonText ++ "\n" else d.debugText))
      return db
    else
      let (b, db) ← bucketFor db ns bucket
      let (value, info) ← attempt (b.get db.table (Bytes.ofString key))
      if json then write (Bytes.ofString (entryJson key value info ++ "\n"))
      else
        if let some m := info then note (metaLine m)
        write value
      return db
  | .count space bucket => do
    let ns := Bytes.ofString space
    let db ← registerSpace db ns
    let (b, db) ← bucketFor db ns bucket
    write (Bytes.ofString (toString (← attempt (db.count b none none)) ++ "\n"))
    return db
  | .compact => do
    emit compactedEvent
    write (Bytes.ofString ("compacted " ++ StoreFile.pathIn dataDir ++ "\n"))
    return db

/-- How a run that failed ends: with status 1 and the failure logged, or, when the failure
is an abort, with status 101. -/
def failed (p : Printed) (e : StoreError) : Outcome :=
  if e.kind == .assertion then ⟨101, p.stdout, p.stderr⟩
  else ⟨1, p.stdout, p.stderr ++ (failureEvent e).text⟩

/-- Runs the tool with the words it was started with on a host's files: what it printed, how
it ended, and the files afterwards. -/
def execute (host : Host) (args : List String) : Outcome × Host :=
  match Invocation.ofArgs args with
  | .answer text => (⟨0, Bytes.ofString text, ""⟩, host)
  | .reject text => (⟨2, [], text⟩, host)
  | .run dataDir cmd =>
    match Database.openOn host dataDir !cmd.writes with
    | .error e => (failed {} e, host)
    | .ok (db, host) =>
      let opened : Printed := { stderr := (openedEvent (StoreFile.pathIn dataDir) !cmd.writes).text }
      match (perform db dataDir cmd).run.run opened with
      | (.error e, p) => (failed p e, host)
      | (.ok db, p) =>
        (⟨0, p.stdout, p.stderr ++ closedEvent.text⟩, db.closeOn host dataDir)

end ArchiveStore.Console
