import ArchiveStore.Packed.Writer
import ArchiveStore.Text.Utf8
/-!
# The packed layout: reading

`Packed.Reader` reads a prefix of a byte string in the packed layout and leaves the rest;
whatever follows a record is not looked at. A read fails with a `PackError`:

* a fixed-width field, or an item of a byte string, that runs past the end is `endOfInput`;
* a text whose announced length runs past the end is `lengthPastEnd`;
* a text that is not UTF-8, an alternative index out of range and a boolean byte other than
  0 or 1 have errors of their own;
* `tooDeep` is for readers that bound the nesting of what they read.
-/

namespace ArchiveStore

/-- Why a packed record could not be read. -/
inductive PackError where
  /-- A fixed-width field, or a byte of a byte string, lies past the end of the input. -/
  | endOfInput
  /-- A text announces more bytes than are left. -/
  | lengthPastEnd
  /-- An alternative index that is not below the number of alternatives. -/
  | badVariant (index alternatives : Nat)
  /-- A boolean byte other than 0 and 1. -/
  | badBool (byte : UInt8)
  /-- A text that is not UTF-8. -/
  | badText (e : Utf8Error)
  /-- Values nested deeper than the limit. -/
  | tooDeep (limit : Nat)
deriving DecidableEq, Repr

/-- The description of a packed-layout failure. -/
def PackError.message : PackError → String
  | .endOfInput => "io error: unexpected end of file"
  | .lengthPastEnd => "io error: "
  | .badVariant index alternatives =>
    s!"invalid value: integer `{index}`, expected variant index 0 <= i < {alternatives}"
  | .badBool byte => s!"invalid u8 while decoding bool, expected 0 or 1, found {byte}"
  | .badText e => "string is not valid utf8: " ++ e.message
  | .tooDeep limit => s!"document nested deeper than {limit}"

namespace Packed

/-- Reads a prefix of the input and leaves the rest. -/
abbrev Reader (α : Type) := StateT Bytes (Except PackError) α

/-- Fails with the given error. -/
def fail {α : Type} (e : PackError) : Reader α := fun _ => .error e

/-- The next `n` bytes. -/
def readFixed (n : Nat) : Reader Bytes := fun input =>
  if n ≤ input.length then .ok (input.take n, input.drop n) else .error .endOfInput

/-- A 32-bit word, least significant byte first. -/
def readU32 : Reader Nat := do return Bytes.toNatLE (← readFixed 4)

/-- A 64-bit word, least significant byte first. -/
def readU64 : Reader Nat := do return Bytes.toNatLE (← readFixed 8)

/-- A signed 64-bit word in two's complement. -/
def readI64 : Reader Int64 := do return (UInt64.ofNat (← readU64)).toInt64

/-- A single byte. -/
def readByte : Reader UInt8 := fun input =>
  match input with
  | [] => .error .endOfInput
  | b :: rest => .ok (b, rest)

/-- A byte string: its length, then that many bytes. -/
def readBytes : Reader Bytes := do
  let n ← readU64
  readFixed n

/-- A text: its length, then that many bytes of UTF-8. -/
def readText : Reader String := do
  let n ← readU64
  let raw ← fun input =>
    if n ≤ input.length then .ok (input.take n, input.drop n) else .error .lengthPastEnd
  match Utf8.decode? raw with
  | .ok s => return s
  | .error e => fail (.badText e)

/-- A boolean byte. -/
def readBool : Reader Bool := do
  let b ← readByte
  if b = 0 then return false
  else if b = 1 then return true
  else fail (.badBool b)

/-- `n` items, each read by `item`. -/
def readMany {α : Type} (item : Reader α) : Nat → Reader (List α)
  | 0 => return []
  | n + 1 => do
    let x ← item
    let xs ← readMany item n
    return x :: xs

/-- A list: its length, then its items. -/
def readList {α : Type} (item : Reader α) : Reader (List α) := do
  readMany item (← readU64)

/-- Runs a reader on a whole input and keeps what it read; trailing bytes are ignored. -/
def Reader.parse {α : Type} (r : Reader α) (input : Bytes) : Except PackError α :=
  (r.run input).map Prod.fst

end Packed

end ArchiveStore
