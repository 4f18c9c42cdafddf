import ArchiveStore.Host
/-!
# Store files

Each data directory holds one store file, `StoreFile.name`. The storage engine opens it in one
of two ways:

* `Host.openStoreFile` opens a file that must exist;
* `Host.createStoreFile` also accepts a missing or empty file, which becomes a fresh store.

A file of raw bytes that the engine did not write is refused (`StoreFile.refusal`). The checks
run in this order:

1. the file must start with the engine's magic number;
2. it must be long enough to hold a header;
3. each of the two commit slots must name a format version the engine reads, which are
   versions 2 and 3.

A header that passes all three checks still describes no store the engine can lay out, and
opening it aborts.
-/

namespace ArchiveStore

namespace StoreFile

/-- The name of the store file inside a data directory. -/
def name : String := "archive.redb"

/-- The path of the store file of a data directory. -/
def pathIn (dataDir : String) : String := Path.join dataDir name

/-- The bytes every store file starts with. -/
def magic : Bytes := [0x72, 0x65, 0x64, 0x62, 0x1A, 0x0A, 0xA9, 0x0D, 0x0A]

/-- The length of a store file's header. -/
def headerLength : Nat := 320

/-- Where the format version of each commit slot is kept. -/
def versionOffsets : List Nat := [64, 192]

/-- What is wrong with a commit slot's format version, if anything. -/
def versionFault (v : Nat) : Option EngineFault :=
  if v == 1 then some (.upgradeRequired v)
  else if v == 2 || v == 3 then none
  else some (.unknownVersion v)

/-- Why the engine refuses a nonempty file of bytes it did not write. -/
def refusal (bs : Bytes) : StoreError :=
  if bs.take magic.length != magic then .engine .invalidData
  else if bs.length < headerLength then .engine .truncated
  else
    match (versionOffsets.filterMap fun o => versionFault (bs.getD o 0).toNat).head? with
    | some fault => .engine fault
    | none => .aborted .unusableHeader

end StoreFile

namespace Host

/-- The table of the store file at a path, which must exist. -/
def openStoreFile (h : Host) (path : String) : Except StoreError Table :=
  match h.readFile path with
  | .error e => .error (.engine (.io e))
  | .ok (.store t) => .ok t
  | .ok (.raw []) => .error (.engine .invalidData)
  | .ok (.raw bs) => .error (StoreFile.refusal bs)

/-- The table of the store file at a path; a missing or empty file becomes a fresh store. -/
def createStoreFile (h : Host) (path : String) : Except StoreError (Table × Host) :=
  let fresh : Except StoreError (Table × Host) :=
    match h.writeFile path (.store Table.empty) with
    | .ok h => .ok (Table.empty, h)
    | .error e => .error (.engine (.io e))
  match h.stat path with
  | .error .noEntry => fresh
  | .error e => .error (.engine (.io e))
  | .ok .directory => .error (.engine (.io .isADirectory))
  | .ok (.file (.store t)) => .ok (t, h)
  | .ok (.file (.raw [])) => fresh
  | .ok (.file (.raw bs)) => .error (StoreFile.refusal bs)

/-- Opens the store of a data directory for writing, making the directory and the store as
needed. -/
def openStore (h : Host) (dataDir : String) : Except StoreError (Table × Host) :=
  match h.createDirAll dataDir with
  | .error e => .error (.io e)
  | .ok h => h.createStoreFile (StoreFile.pathIn dataDir)

/-- Opens the existing store of a data directory for reading only. -/
def openStoreReadOnly (h : Host) (dataDir : String) : Except StoreError Table :=
  let path := StoreFile.pathIn dataDir
  if h.exists? path then h.openStoreFile path else .error (.missingStore path)

/-- The host with the store file at a path holding a table. -/
def saveStoreFile (h : Host) (path : String) (t : Table) : Host :=
  match h.writeFile path (.store t) with
  | .ok h => h
  | .error _ => h

/-- The host with the store file of a data directory holding a table. -/
def saveStore (h : Host) (dataDir : String) (t : Table) : Host :=
  h.saveStoreFile (StoreFile.pathIn dataDir) t

end Host

end ArchiveStore
