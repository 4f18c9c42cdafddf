import ArchiveStore.Table
/-!
# Name lists

The store remembers the names of its namespaces, and each namespace the names of its user
buckets, as lists kept under fixed keys (`Keys.namespaceList`, `Keys.bucketList`). A list is
stored in the packed layout as a list of byte strings, in the order the names were first
added; a missing record is the empty list.
-/

namespace ArchiveStore

namespace NameList

/-- The stored form of a list of names. -/
def pack (names : List Bytes) : Bytes := Packed.list Packed.bytes names

/-- The names a stored list holds, the empty list if there is none. -/
def decode : Option Bytes → Except StoreError (List Bytes)
  | none => .ok []
  | some raw =>
    match (Packed.readList Packed.readBytes).parse raw with
    | .ok names => .ok names
    | .error e => .error (.badNameList e)

/-- The names stored under a key of a table. -/
def read (t : Table) (key : Bytes) : Except StoreError (List Bytes) := decode (t.get? key)

/-- Adds a name to the list under a key unless it is there; says whether it was added. -/
def addIn (key name : Bytes) : Txn Bool := do
  let names ← Txn.ofExcept (decode (← Txn.get? key))
  if names.contains name then return false
  else
    Txn.set key (pack (names ++ [name]))
    return true

end NameList

end ArchiveStore
