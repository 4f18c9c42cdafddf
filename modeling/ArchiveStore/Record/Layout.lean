import ArchiveStore.Record.Meta
/-!
# Chunk layout

`n` chunks of `size` bytes hold more than `(n - 1) * size` and at most `n * size` bytes. A
chunked value's meta must say so of its own length, or the record is corrupt. The bounds are
computed as 64-bit words that stop at the largest word instead of wrapping (`Word.subSat`,
`Word.mulSat`, `Word.addSat`), and the message shows them as computed.
-/

namespace ArchiveStore

namespace Word

/-- The largest 64-bit word. -/
def max : Nat := Nat.pow 2 64 - 1

/-- Subtraction of words that stops at zero. -/
def subSat (a b : Nat) : Nat := a - b

/-- Multiplication of words that stops at the largest word. -/
def mulSat (a b : Nat) : Nat := Nat.min (a * b) max

/-- Addition of words that stops at the largest word. -/
def addSat (a b : Nat) : Nat := Nat.min (a + b) max

end Word

namespace Meta

/-- The length and chunk size of a chunked value, checked against its chunk list. -/
def layout (m : Meta) : Except StoreError (Nat × Nat) :=
  match m.splitSize with
  | .ok (some size) =>
    let count := m.chunks.length
    let total := m.totalLength.toNat
    let low := Word.mulSat (Word.subSat count 1) size
    let high := Word.mulSat count size
    if total ≤ low ∨ total > high then
      .error (.layoutMismatch total count size (Word.addSat low 1) high)
    else .ok (total, size)
  | _ => .error (.badChunkSize m.chunkSize.toInt)

end Meta

end ArchiveStore
