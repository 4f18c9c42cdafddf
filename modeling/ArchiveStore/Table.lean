import ArchiveStore.Keys
import Std.Data.TreeMap
/-!
# The ordered table

The store keeps every record in one table from byte keys to byte values, kept in ascending
key order with each key once. Reads see a table as it is; a write builds a new table, so an
operation that fails part way simply keeps the table it started from.

* `Table.get?`, `Table.insert` and `Table.erase` read, set and remove one key.
* `Table.scan p` lists the entries whose keys start with `p`, ascending, by walking the
  bounds `[p, Keys.successor p)`; `Table.erasePrefix p` removes them.
-/

namespace ArchiveStore

/-- Byte keys to byte values, ascending by key. -/
structure Table where
  /-- The entries, as a search tree ordered by key. -/
  tree : Std.TreeMap Bytes Bytes := {}

namespace Table

/-- The table with no entries. -/
def empty : Table := {}

/-- The entries, ascending by key, each key once. -/
def entries (t : Table) : List (Bytes × Bytes) := t.tree.toList

/-- The value under a key. -/
def get? (t : Table) (k : Bytes) : Option Bytes := t.tree.get? k

/-- Whether a key has a value. -/
def contains (t : Table) (k : Bytes) : Bool := t.tree.contains k

/-- The table with a key set to a value. -/
def insert (t : Table) (k v : Bytes) : Table := ⟨t.tree.insert k v⟩

/-- The table without a key. -/
def erase (t : Table) (k : Bytes) : Table := ⟨t.tree.erase k⟩

/-- The entries whose keys start with `p`, ascending. -/
def scan (t : Table) (p : Bytes) : List (Bytes × Bytes) :=
  let hi := Keys.successor p
  t.entries.filter fun e => Keys.withinBounds p hi e.1

/-- The table without the keys that start with `p`. -/
def erasePrefix (t : Table) (p : Bytes) : Table :=
  let hi := Keys.successor p
  ⟨t.tree.filter fun k _ => !Keys.withinBounds p hi k⟩

end Table

/-- A step of a write transaction: it reads and changes a table, or fails. -/
abbrev Txn (α : Type) := StateT Table (Except StoreError) α

namespace Txn

/-- Fails the transaction. -/
def fail {α : Type} (e : StoreError) : Txn α := fun _ => .error e

/-- Lifts a computation that may fail. -/
def ofExcept {α : Type} (r : Except StoreError α) : Txn α := fun t => r.map (·, t)

/-- The value under a key. -/
def get? (k : Bytes) : Txn (Option Bytes) := fun t => .ok (t.get? k, t)

/-- Sets a key. -/
def set (k v : Bytes) : Txn Unit := fun t => .ok ((), t.insert k v)

/-- Removes a key; says whether it was there. -/
def delete (k : Bytes) : Txn Bool := fun t => .ok (t.contains k, t.erase k)

/-- The entries under a prefix. -/
def scan (p : Bytes) : Txn (List (Bytes × Bytes)) := fun t => .ok (t.scan p, t)

/-- Removes the entries under a prefix. -/
def deletePrefix (p : Bytes) : Txn Unit := fun t => .ok ((), t.erasePrefix p)

/-- Hands out the next number of the counter under `key` and advances it. A missing counter
starts at 0; a counter at the largest 64-bit number is exhausted. -/
def nextSequence (key : Bytes) : Txn UInt64 := do
  let current ← match ← get? key with
    | none => pure 0
    | some raw => ofExcept (Keys.readSequence raw)
  if current = UInt64.ofNat (Nat.pow 2 64 - 1) then fail .counterExhausted
  else
    set key (Keys.sequence (current + 1))
    return current

end Txn

end ArchiveStore
