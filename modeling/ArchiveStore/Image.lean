import ArchiveStore.Table
import ArchiveStore.Packed.Reader
import ArchiveStore.Packed.Writer

/-!
# Store file images

How a table is kept in a real file: the four bytes `ASV1`, then the entries in key order as a
packed list, each entry its key and its value with their lengths. `Table.ofImage` reads an
image back; bytes that are not exactly an image are no store, as a damaged store file is not.
-/

namespace ArchiveStore

namespace Table

/-- The bytes every store file image starts with. -/
def imageMark : Bytes := Bytes.ofString "ASV1"

/-- One entry of an image. -/
def imageEntry (e : Bytes × Bytes) : Bytes := Packed.bytes e.1 ++ Packed.bytes e.2

/-- The image of a table. -/
def image (t : Table) : Bytes := imageMark ++ Packed.list imageEntry t.entries

/-- Reads one entry of an image. -/
def entryReader : Packed.Reader (Bytes × Bytes) := do
  let k ← Packed.readBytes
  let v ← Packed.readBytes
  return (k, v)

/-- The table an image holds, if the bytes are one. -/
def ofImage (bs : Bytes) : Option Table :=
  if bs.take 4 != imageMark then none
  else
    match (Packed.readList entryReader).run (bs.drop 4) with
    | .ok (entries, []) => some (entries.foldl (fun t e => t.insert e.1 e.2) empty)
    | _ => none

end Table

end ArchiveStore
