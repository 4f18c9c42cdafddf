import ArchiveStore.Database
import ArchiveStore.StoreFile

/-!
# Opening a store on a host

A store lives in the file `archive.redb` of its data directory. Opened for reading only, the
file must already hold a store. Opened for writing, the directory and a fresh store are made
as needed. Closing a store opened for writing writes its table back to the file.
-/

namespace ArchiveStore

namespace Database

/-- Opens the store of a data directory, and gives the host with anything opening made. -/
def openOn (host : Host) (dataDir : String) (readOnly : Bool) :
    Except StoreError (Database × Host) :=
  if readOnly then do
    let t ← host.openStoreReadOnly dataDir
    return ({ table := t, readOnly := true }, host)
  else do
    let (t, host) ← host.openStore dataDir
    return ({ table := t, readOnly := false }, host)

/-- The host after a store of a data directory is closed. -/
def closeOn (db : Database) (host : Host) (dataDir : String) : Host :=
  if db.readOnly then host else host.saveStore dataDir db.table

end Database

end ArchiveStore
