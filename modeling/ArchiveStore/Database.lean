import ArchiveStore.Bucket.Write
import ArchiveStore.Bucket.Read
import ArchiveStore.NameList
import ArchiveStore.Document.Codec
/-!
# An open store

`Database` is a store as a process holds it open: its table, whether it was opened
read-only, and the namespaces and user buckets registered since it was opened. Registration
is in memory; the names are also added to the stored name lists unless the store is
read-only. Each registration gets a handle number, so that a caller can tell whether asking
twice gave the same namespace or bucket back.

Every write runs as one transaction (`Database.update`): on a read-only store it is refused,
and when it fails the table stays as it was.
-/

namespace ArchiveStore

/-- A namespace registered with an open store. -/
structure Space where
  name : Bytes
  /-- The handle number of this registration. -/
  handle : Nat
  /-- The registered user buckets, with their handle numbers. -/
  buckets : List (Bytes × Nat)
deriving DecidableEq, Repr

/-- The key prefix of a namespace of the given name. -/
def Space.keyPrefix (name : Bytes) : Bytes := Keys.namespacePrefix name

/-- An input to a combined write: an object stored beside a document. -/
structure Resource where
  key : Bytes
  data : Bytes
  info : Option Meta := none
deriving DecidableEq, Repr

/-- Names in ascending byte order. -/
def sortNames (names : List Bytes) : List Bytes := names.mergeSort fun a b => decide (a ≤ b)

/-- A store held open. -/
structure Database where
  table : Table
  readOnly : Bool
  /-- The registered namespaces. -/
  spaces : List Space := []
  /-- The handle number the next registration gets. -/
  nextHandle : Nat := 0

namespace Database

/-- Runs a transaction: refused on a read-only store; on failure nothing changes. -/
def update {α : Type} (db : Database) (txn : Txn α) : Except StoreError (α × Database) :=
  if db.readOnly then .error .readOnly
  else do
    let (a, t) ← txn.run db.table
    return (a, { db with table := t })

/-- The registration of a namespace. -/
def space? (db : Database) (name : Bytes) : Option Space := db.spaces.find? (·.name == name)

/-- The database with the registration of a namespace replaced. -/
def setSpace (db : Database) (s : Space) : Database :=
  { db with spaces := db.spaces.map fun s' => if s'.name == s.name then s else s' }

/-- Registers a namespace, adding its name to the stored list unless the store is read-only;
returns the handle number. A registered namespace is returned as it is. -/
def createNamespace (db : Database) (name : Bytes) : Except StoreError (Nat × Database) := do
  Keys.validateName "namespace" name
  match db.space? name with
  | some s => return (s.handle, db)
  | none =>
    let db ← if db.readOnly then pure db
      else do pure (← db.update (NameList.addIn Keys.namespaceList name)).2
    let s : Space := ⟨name, db.nextHandle, []⟩
    return (s.handle, { db with spaces := db.spaces ++ [s], nextHandle := db.nextHandle + 1 })

/-- Removes every record of a registered namespace, its stored bucket list included, and
forgets its user buckets. The namespace stays registered. -/
def deleteNamespace (db : Database) (name : Bytes) : Except StoreError Database := do
  match db.space? name with
  | none => .error (.missingNamespace name)
  | some s =>
    let (_, db) ← db.update (Txn.deletePrefix (Space.keyPrefix name))
    return db.setSpace { s with buckets := [] }

/-- The registered namespaces, in byte order. -/
def listNamespaces (db : Database) : List Bytes := sortNames (db.spaces.map (·.name))

/-- The stored namespace names, in the order they were first created. -/
def storedNamespaces (db : Database) : Except StoreError (List Bytes) :=
  NameList.read db.table Keys.namespaceList

/-- The registration of a namespace, which every namespace operation needs. -/
def requireSpace (db : Database) (name : Bytes) : Except StoreError Space :=
  match db.space? name with
  | some s => .ok s
  | none => .error (.missingNamespace name)

/-- Registers a user bucket of a namespace, adding its name to the namespace's stored list
unless the store is read-only; returns the handle number. -/
def createBucket (db : Database) (space name : Bytes) : Except StoreError (Nat × Database) := do
  Keys.validateName "bucket" name
  let s ← db.requireSpace space
  match s.buckets.lookup name with
  | some h => return (h, db)
  | none =>
    let db ← if db.readOnly then pure db
      else do pure (← db.update (NameList.addIn (Keys.bucketList (Space.keyPrefix space)) name)).2
    let h := db.nextHandle
    let db := db.setSpace { s with buckets := s.buckets ++ [(name, h)] }
    return (h, { db with nextHandle := h + 1 })

/-- Removes every record of a registered user bucket and the chunks they list. The bucket
stays registered and its name stays in the stored list. -/
def deleteBucket (db : Database) (space name : Bytes) : Except StoreError Database := do
  let s ← db.requireSpace space
  match s.buckets.lookup name with
  | none => .error (.missingBucket name space)
  | some _ =>
    let (_, db) ← db.update (Bucket.user (Space.keyPrefix space) name).clearIn
    return db

/-- The registered user buckets of a namespace, in byte order. -/
def listBuckets (db : Database) (space : Bytes) : Except StoreError (List Bytes) := do
  return sortNames ((← db.requireSpace space).buckets.map (·.1))

/-- The stored user bucket names of a namespace, in the order they were first created. -/
def storedBuckets (db : Database) (space : Bytes) : Except StoreError (List Bytes) :=
  NameList.read db.table (Keys.bucketList (Space.keyPrefix space))

/-- Registers stored bucket names that are not registered yet, in order, with handle numbers
from `next` on; `added` counts them. A name too long to build keys from aborts the walk, and
the names registered before it stay registered. -/
def registerStored (s : Space) (next added : Nat) :
    List Bytes → Space × Nat × Except StoreError Nat
  | [] => (s, next, .ok added)
  | name :: rest =>
    if (s.buckets.lookup name).isSome then registerStored s next added rest
    else if name.length > Keys.maxNameLength then
      (s, next, .error (.aborted (.unkeyableName name.length)))
    else registerStored { s with buckets := s.buckets ++ [(name, next)] } (next + 1) (added + 1) rest

/-- Registers the stored user buckets of a namespace that are not registered yet; returns how
many, and the store with what was registered, also when the walk aborted. -/
def loadBuckets (db : Database) (space : Bytes) : Except StoreError Nat × Database :=
  match db.requireSpace space, db.storedBuckets space with
  | .error e, _ => (.error e, db)
  | _, .error e => (.error e, db)
  | .ok s, .ok stored =>
    let (s, next, outcome) := registerStored s db.nextHandle 0 stored
    (outcome, { db.setSpace s with nextHandle := next })

/-- Stores a document and objects beside it in one transaction: the objects in the object
bucket, in order, then the document. -/
def putDocumentWithObjects (db : Database) (space key : Bytes) (doc : Document)
    (objects : List Resource) : Except StoreError Database := do
  let home := Space.keyPrefix space
  let (_, db) ← db.update do
    for o in objects do
      (Bucket.objects home).putIn o.key o.data o.info
    let encoded ← Txn.ofExcept doc.encode
    (Bucket.documents home).putIn key encoded none
  return db

/-- Stores a value in a bucket. -/
def put (db : Database) (b : Bucket) (key value : Bytes) (info : Option Meta) :
    Except StoreError Database := do
  return (← db.update (b.putIn key value info)).2

/-- Stores a value in a bucket under its next sequence number; returns the key. -/
def putValue (db : Database) (b : Bucket) (value : Bytes) (info : Option Meta) :
    Except StoreError (Bytes × Database) :=
  db.update (b.appendIn value info)

/-- Removes an entry of a bucket; a missing entry is no error. -/
def delete (db : Database) (b : Bucket) (key : Bytes) : Except StoreError Database := do
  return (← db.update (b.deleteIn key)).2

/-- Stores a document in a bucket. -/
def putDocument (db : Database) (b : Bucket) (key : Bytes) (doc : Document) :
    Except StoreError Database := do
  let encoded ← doc.encode
  return (← db.update (b.putIn key encoded none)).2

/-- The document stored under a key of a bucket. -/
def getDocument (db : Database) (b : Bucket) (key : Bytes) : Except StoreError Document := do
  Document.decode (← b.get db.table key).1

/-- Refuses bounds on a key range; `operation` names the refusing operation. -/
def requireFullRange (operation : String) (lo hi : Option Bytes) : Except StoreError Unit :=
  if lo.isSome || hi.isSome then .error (.boundedRange operation) else .ok ()

/-- The number of entries of a bucket; bounds are refused. -/
def count (db : Database) (b : Bucket) (lo hi : Option Bytes) : Except StoreError Nat := do
  requireFullRange "count" lo hi
  return b.count db.table

end Database

end ArchiveStore
