import ArchiveStore.Session.Basic
import ArchiveStore.Database.Open
/-!
# Sessions: carrying out requests

`Session` is the state of a client: the machine's files, how and where the store was last
opened, the open store if opening succeeded, and the handles it holds. `Session.step` carries
out one request and answers it.

Handles are held by name. A namespace handle is needed for every request about that
namespace, a user bucket handle for every request about that bucket, and a cursor for every
cursor request; without one the request fails before the store is asked. Reopening the store,
and every raw access to its file, closes the store and drops every handle.
-/

namespace ArchiveStore

/-- A cursor held by a session, and whether it walks documents. -/
structure HeldCursor where
  cursor : Cursor
  forDocuments : Bool

/-- The state of a client working with a store. -/
structure Session where
  host : Host
  /-- How the store was last opened. -/
  options : OpenOptions
  /-- The data directory the store was last opened in. -/
  dataDir : String
  /-- The open store, if the last opening succeeded. -/
  db : Option Database
  /-- Namespace handles, by namespace name. -/
  spaces : List (Bytes × Nat) := []
  /-- User bucket handles, by namespace and bucket name. -/
  buckets : List ((Bytes × Bytes) × Nat) := []
  /-- Cursors, by name. -/
  cursors : List (String × HeldCursor) := []

namespace Session

/-- A list keyed by names with one entry set. -/
def setKey {κ α : Type} [BEq κ] (xs : List (κ × α)) (k : κ) (a : α) : List (κ × α) :=
  (xs.filter fun e => !(e.1 == k)) ++ [(k, a)]

/-- Closes the store, writing its table back to its file, and drops every handle. -/
def close (s : Session) : Session :=
  let host := match s.db with
    | some db => db.closeOn s.host s.dataDir
    | none => s.host
  { s with host, db := none, spaces := [], buckets := [], cursors := [] }

/-- Opens the store again in the data directory of the last opening. -/
def reopenHere (s : Session) (readOnly : Bool) : Session × Option StoreError :=
  match Database.openOn s.host s.dataDir readOnly with
  | .ok (db, host) => ({ s with host, db := some db }, none)
  | .error e => ({ s with db := none }, some e)

/-- Closes the store and opens it again with new options. -/
def reopen (s : Session) (o : OpenOptions) : Session × Option StoreError :=
  let s := s.close
  let dataDir := Path.join Host.scenarioRoot o.subdir
  ({ s with options := o, dataDir } : Session).reopenHere (o.readOnly && !o.byPath)

/-- A session on a fresh machine that opens the store in its own directory. -/
def start (readOnly : Bool) : Session × Option StoreError :=
  let s : Session :=
    { host := Host.fresh, options := { readOnly }, dataDir := Host.scenarioRoot, db := none }
  s.reopenHere readOnly

/-- The open store. -/
def requireDb (s : Session) : Except SessionError Database :=
  match s.db with
  | some db => .ok db
  | none => .error .notOpen

/-- Checks that the session holds a handle on a namespace. -/
def requireSpace (s : Session) (space : Bytes) : Except SessionError Unit :=
  if (s.spaces.lookup space).isSome then .ok () else .error (.noNamespace space)

/-- The bucket a request addresses, which needs the handles it names. -/
def bucketOf (s : Session) (space : Bytes) (b : BucketRef) : Except SessionError Bucket := do
  s.requireSpace space
  let home := Space.keyPrefix space
  match b with
  | .documents => return Bucket.documents home
  | .objects => return Bucket.objects home
  | .chunks => return Bucket.chunks home
  | .user name =>
    if (s.buckets.lookup (space, name)).isSome then return Bucket.user home name
    else .error (.noBucket name)

/-- The cursor of a name. -/
def cursorOf (s : Session) (name : String) : Except SessionError HeldCursor :=
  match s.cursors.lookup name with
  | some c => .ok c
  | none => .error (.noCursor name)

/-- A store result as a session result. -/
def lift {α : Type} (r : Except StoreError α) : Except SessionError α :=
  r.mapError .store

/-- The rows of a cursor's remaining entries, read without moving it. -/
def scanRows (c : Cursor) : List ScanRow :=
  c.pending.map fun (k, r) =>
    let here := { c with state := .positioned k r }
    { key := k.drop c.bucket.entries.length, value := here.value, info := here.info }

/-- The documents of a cursor's remaining entries, read without moving it. -/
def foundRows (c : Cursor) : List FoundRow :=
  c.pending.map fun (k, r) =>
    let here := { c with state := .positioned k r }
    { key := k.drop c.bucket.entries.length, doc := here.document }

/-- Runs a change of the open store and keeps the changed store. -/
def change {α : Type} (s : Session) (f : Database → Except StoreError (α × Database)) :
    Except SessionError α × Session :=
  match s.requireDb with
  | .error e => (.error e, s)
  | .ok db =>
    match f db with
    | .ok (a, db) => (.ok a, { s with db := some db })
    | .error e => (.error (.store e), s)

/-- Reads from the open store. -/
def read {α : Type} (s : Session) (f : Database → Except StoreError α) :
    Except SessionError α × Session :=
  (do lift (f (← s.requireDb)), s)

/-- Closes the store, acts on the table in its file directly, and opens the store again as
it was opened before. The file must already hold a store. -/
def rawAccess {α : Type} (s : Session) (act : Table → α × Table) :
    Except SessionError α × Session :=
  let s := s.close
  let file := StoreFile.pathIn s.dataDir
  let again (s : Session) : Session := (s.reopenHere (s.options.readOnly && !s.options.byPath)).1
  match s.host.openStoreFile file with
  | .error e => (.error (.store e), again s)
  | .ok t =>
    let (a, t) := act t
    (.ok a, again { s with host := s.host.saveStoreFile file t })

/-- Carries out a request and answers it. -/
def step (s : Session) : Request → Except SessionError Reply × Session
  | .createNamespace space =>
    match s.requireDb with
    | .error e => (.error e, s)
    | .ok db =>
      match db.createNamespace space with
      | .error e => (.error (.store e), s)
      | .ok (h, db) =>
        (.ok (.same ((s.spaces.lookup space).map (· == h))),
          { s with db := some db, spaces := setKey s.spaces space h })
  | .deleteNamespace space =>
    let (r, s) := s.change fun db => do return ((), ← db.deleteNamespace space)
    (r.map fun _ => .unit, s)
  | .listNamespaces => s.read fun db => return .names db.listNamespaces
  | .storedNamespaces => s.read fun db => return .names (← db.storedNamespaces)
  | .isReadOnly => s.read fun db => return .flag db.readOnly
  | .compact => s.read fun db => if db.readOnly then .error .readOnly else return .unit
  | .reopen o =>
    let (s, r) := s.reopen o
    (match r with
      | none => .ok .unit
      | some e => .error (.store e), s)
  | .storePath => s.read fun _ => return .text (StoreFile.pathIn s.dataDir)
  | .makeFile path content =>
    let p := Path.join Host.scenarioRoot path
    let made := match Path.parent? p with
      | some up => s.host.createDirAll up
      | none => .ok s.host
    match made >>= fun h => h.writeFile p (.raw content) with
    | .ok host => (.ok .unit, { s with host })
    | .error e => (.error (.host e), s)
  | .replaceStoreFile content =>
    let s := s.close
    match s.host.createDirAll s.dataDir >>= fun h =>
        h.writeFile (StoreFile.pathIn s.dataDir) (.raw content) with
    | .error e => (.error (.host e), s)
    | .ok host =>
      let (s, r) := ({ s with host } : Session).reopenHere (s.options.readOnly && !s.options.byPath)
      (match r with
        | none => .ok .unit
        | some e => .error (.store e), s)
  | .console args =>
    let s := s.close
    let (run, host) := Console.execute s.host args
    let (s, r) := ({ s with host } : Session).reopenHere (s.options.readOnly && !s.options.byPath)
    (.ok (.console run.code run.stdout (Console.shownLines run.stderr) r), s)
  | .bucketInfo space b =>
    (do
      let bucket ← s.bucketOf space b
      return .bucketInfo bucket.name (if b == .documents then none else some bucket.kind), s)
  | .createBucket space name =>
    match s.requireSpace space >>= fun _ => s.requireDb with
    | .error e => (.error e, s)
    | .ok db =>
      match db.createBucket space name with
      | .error e => (.error (.store e), s)
      | .ok (h, db) =>
        (.ok (.same ((s.buckets.lookup (space, name)).map (· == h))),
          { s with db := some db, buckets := setKey s.buckets (space, name) h })
  | .deleteBucket space name =>
    match s.requireSpace space with
    | .error e => (.error e, s)
    | .ok () =>
      let (r, s) := s.change fun db => do return ((), ← db.deleteBucket space name)
      (r.map fun _ => .unit, s)
  | .listBuckets space =>
    match s.requireSpace space with
    | .error e => (.error e, s)
    | .ok () => s.read fun db => do return .names (← db.listBuckets space)
  | .storedBuckets space =>
    match s.requireSpace space with
    | .error e => (.error e, s)
    | .ok () => s.read fun db => do return .names (← db.storedBuckets space)
  | .loadBuckets space =>
    match s.requireSpace space with
    | .error e => (.error e, s)
    | .ok () =>
      match s.requireDb with
      | .error e => (.error e, s)
      | .ok db =>
        let (r, db) := db.loadBuckets space
        (lift (r.map .number), { s with db := some db })
  | .namespacePrefix space =>
    (do s.requireSpace space; return .bytes (Space.keyPrefix space), s)
  | .putDocumentWithObjects space key doc objects =>
    match s.requireSpace space with
    | .error e => (.error e, s)
    | .ok () =>
      let (r, s) := s.change fun db => do
        return ((), ← db.putDocumentWithObjects space key doc objects)
      (r.map fun _ => .unit, s)
  | .putDocument space key doc =>
    match s.bucketOf space .documents with
    | .error e => (.error e, s)
    | .ok b =>
      let (r, s) := s.change fun db => do return ((), ← db.putDocument b key doc)
      (r.map fun _ => .unit, s)
  | .getDocument space key =>
    match s.bucketOf space .documents with
    | .error e => (.error e, s)
    | .ok b => s.read fun db => do return .document (← db.getDocument b key)
  | .find space name _ =>
    match s.bucketOf space .documents >>= fun b => do return (b, ← s.requireDb) with
    | .error e => (.error e, s)
    | .ok (b, db) =>
      (.ok .unit, { s with cursors := setKey s.cursors name ⟨Cursor.make db.table b true, true⟩ })
  | .findAll space _ =>
    (do
      let b ← s.bucketOf space .documents
      let db ← s.requireDb
      return .found (foundRows (Cursor.make db.table b true)), s)
  | .put space b key value info =>
    match s.bucketOf space b with
    | .error e => (.error e, s)
    | .ok b =>
      let (r, s) := s.change fun db => do return ((), ← db.put b key value info)
      (r.map fun _ => .unit, s)
  | .putValue space b value info =>
    match s.bucketOf space b with
    | .error e => (.error e, s)
    | .ok b =>
      let (r, s) := s.change fun db => db.putValue b value info
      (r.map .bytes, s)
  | .get space b key =>
    match s.bucketOf space b with
    | .error e => (.error e, s)
    | .ok b => s.read fun db => do
      let (v, m) ← b.get db.table key
      return .entry v m
  | .getAt space b key len offset =>
    match s.bucketOf space b with
    | .error e => (.error e, s)
    | .ok b => s.read fun db => do return .slice (← b.getAt db.table key len offset)
  | .getMeta space b key =>
    match s.bucketOf space b with
    | .error e => (.error e, s)
    | .ok b => s.read fun db => do return .info (← b.getMeta db.table key)
  | .contains space b key =>
    match s.bucketOf space b with
    | .error e => (.error e, s)
    | .ok b => s.read fun db => return .flag (b.contains db.table key)
  | .delete space b key =>
    match s.bucketOf space b with
    | .error e => (.error e, s)
    | .ok b =>
      let (r, s) := s.change fun db => do return ((), ← db.delete b key)
      (r.map fun _ => .unit, s)
  | .count space b lo hi =>
    match s.bucketOf space b with
    | .error e => (.error e, s)
    | .ok b => s.read fun db => do return .number (← db.count b lo hi)
  | .scan space b reverse lo hi =>
    match s.bucketOf space b with
    | .error e => (.error e, s)
    | .ok b => s.read fun db => do return .rows (scanRows (← Cursor.open? db b lo hi reverse))
  | .range space b name reverse lo hi =>
    match s.bucketOf space b >>= fun b => do return (b, ← s.requireDb) with
    | .error e => (.error e, s)
    | .ok (b, db) =>
      match Cursor.open? db b lo hi reverse with
      | .error e => (.error (.store e), s)
      | .ok c => (.ok .unit, { s with cursors := setKey s.cursors name ⟨c, false⟩ })
  | .advance name =>
    match s.cursorOf name with
    | .error e => (.error e, s)
    | .ok h =>
      let (moved, c) := h.cursor.advance
      (.ok (.flag moved), { s with cursors := setKey s.cursors name { h with cursor := c } })
  | .cursorState name => (do return .text (← s.cursorOf name).cursor.state.label, s)
  | .cursorKey name => (do return .bytes (← lift (← s.cursorOf name).cursor.key), s)
  | .cursorValue name => (do return .bytes (← lift (← s.cursorOf name).cursor.value), s)
  | .cursorMeta name => (do return .info (← lift (← s.cursorOf name).cursor.info), s)
  | .cursorDocument name =>
    (do
      let h ← s.cursorOf name
      if h.forDocuments then return .document (← lift h.cursor.document)
      else .error .notDocumentCursor, s)
  | .release name =>
    match s.cursorOf name with
    | .error e => (.error e, s)
    | .ok _ => (.ok .unit, { s with cursors := s.cursors.filter fun e => e.1 != name })
  | .dumpTable => s.rawAccess fun t => (.dump t.entries, t)
  | .setRecord key value => s.rawAccess fun t => (.flag (t.contains key), t.insert key value)
  | .deleteRecord key => s.rawAccess fun t => (.flag (t.contains key), t.erase key)

end Session

end ArchiveStore
