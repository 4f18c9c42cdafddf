import ArchiveStore.Bytes.Basic
/-!
# The packed layout: writing

Records that carry structure (a value's meta, a document, a list of names) are stored in one
compact layout: integers in fixed width, least significant byte first; a text or a byte string
as its length in eight bytes followed by its bytes; a list as its length in eight bytes
followed by its items; a choice between alternatives as the alternative's index in four bytes
followed by its contents. Nothing marks where a record ends.
-/

namespace ArchiveStore.Packed

/-- A 32-bit word, least significant byte first. -/
def u32 (n : Nat) : Bytes := Bytes.ofNatLE 4 n

/-- A 64-bit word, least significant byte first. -/
def u64 (n : Nat) : Bytes := Bytes.ofNatLE 8 n

/-- A signed 64-bit word in two's complement, least significant byte first. -/
def i64 (n : Int64) : Bytes := u64 n.toUInt64.toNat

/-- A byte string: its length, then its bytes. -/
def bytes (bs : Bytes) : Bytes := u64 bs.length ++ bs

/-- A text: the length of its UTF-8 encoding, then that encoding. -/
def text (s : String) : Bytes := bytes (Bytes.ofString s)

/-- A list: its length, then each item as `item` writes it. -/
def list {α : Type} (item : α → Bytes) (xs : List α) : Bytes :=
  u64 xs.length ++ xs.flatMap item

end ArchiveStore.Packed
