import ArchiveStore.Document.Value
import ArchiveStore.Packed.Reader
import ArchiveStore.Error
/-!
# Stored documents

A document is stored in the packed layout: its field count, then each key and value. A value
is its alternative's index in four bytes (null 0, boolean 1, integer 2, float 3, text 4,
bytes 5, list 6, document 7) followed by its contents.

Lists and documents may nest at most `maxDepth` levels, a top-level field's value being on
level 1. Writing visits the lists and documents of a document on a stack, each with its depth,
and refuses a deeper document before writing anything (`Document.tooDeep`,
`Document.encode`).
Reading counts the levels it opens on a counter of the reading thread (`Decoding.depth`):
each list or document raises it on the way in and lowers it on the way out, also when the
reading inside fails (`Decoder.nested`), and a list or document that would raise it past
`maxDepth` is refused (`Document.decode`).
-/

namespace ArchiveStore

/-- The deepest nesting of lists and documents a stored document may have. -/
def maxDepth : Nat := 128

namespace Value

mutual
/-- The packed form of a value. -/
def pack : Value → Bytes
  | .null => Packed.u32 0
  | .bool b => Packed.u32 1 ++ [if b then 1 else 0]
  | .int n => Packed.u32 2 ++ Packed.i64 n
  | .float x => Packed.u32 3 ++ Packed.u64 x.bits.toNat
  | .text s => Packed.u32 4 ++ Packed.text s
  | .bytes b => Packed.u32 5 ++ Packed.bytes b
  | .list items => Packed.u32 6 ++ Packed.u64 items.length ++ packList items
  | .document fields => Packed.u32 7 ++ Packed.u64 fields.length ++ packFields fields

/-- The packed values of a list, one after the other. -/
def packList : List Value → Bytes
  | [] => []
  | v :: vs => pack v ++ packList vs

/-- The packed keys and values of a document, one after the other. -/
def packFields : List (String × Value) → Bytes
  | [] => []
  | (k, v) :: fs => Packed.text k ++ pack v ++ packFields fs
end

end Value

/-! ## Reading, with the nesting counter of the reading thread -/

/-- The state of a document reading: the input not read yet, and the nesting counter of the
reading thread. -/
structure Decoding where
  input : Bytes
  /-- How many lists and documents are open around the value being read. -/
  depth : Nat

/-- A step of a document reading. A failure keeps the state it failed in, the counter
included, as the state of a thread outlives a failed call. -/
abbrev Decoder (α : Type) := EStateM PackError Decoding α

namespace Decoder

/-- Runs a reader of the packed layout on the input. -/
def read {α : Type} (r : Packed.Reader α) : Decoder α := fun s =>
  match r s.input with
  | .ok (a, rest) => .ok a { s with input := rest }
  | .error e => .error e s

/-- Opens a nesting level: the counter goes up by one, and a level past `maxDepth` is
refused. -/
def enter : Decoder Unit := do
  let s ← get
  if s.depth + 1 > maxDepth then throw (.tooDeep maxDepth)
  set { s with depth := s.depth + 1 }

/-- Closes a nesting level. -/
def leave : Decoder Unit := modify fun s => { s with depth := s.depth - 1 }

/-- Reads one nesting level down: the level is opened first, and closed again however the
reading ends. -/
def nested {α : Type} (x : Decoder α) : Decoder α := do
  enter
  tryFinally x leave

end Decoder

namespace Value

mutual
/-- Reads a value. `room` bounds how many more levels the reading opens; it only bounds the
recursion, since the counter refuses a level as soon as it would pass `maxDepth`. -/
def reader (room : Nat) : Decoder Value := do
  let tag ← Decoder.read Packed.readU32
  if tag = 0 then return .null
  else if tag = 1 then return .bool (← Decoder.read Packed.readBool)
  else if tag = 2 then return .int (← Decoder.read Packed.readI64)
  else if tag = 3 then return .float ⟨UInt64.ofNat (← Decoder.read Packed.readU64)⟩
  else if tag = 4 then return .text (← Decoder.read Packed.readText)
  else if tag = 5 then return .bytes (← Decoder.read Packed.readBytes)
  else if tag = 6 then
    match room with
    | 0 => Decoder.nested (throw (.tooDeep maxDepth))
    | r + 1 => return .list (← Decoder.nested do itemsReader r (← Decoder.read Packed.readU64))
  else if tag = 7 then
    match room with
    | 0 => Decoder.nested (throw (.tooDeep maxDepth))
    | r + 1 => return .document (Document.ofFields
        (← Decoder.nested do fieldsReader r (← Decoder.read Packed.readU64)))
  else throw (.badVariant tag 8)
termination_by (room, 0)

/-- Reads `n` values. -/
def itemsReader (room : Nat) : Nat → Decoder (List Value)
  | 0 => return []
  | n + 1 => do
    let v ← reader room
    let vs ← itemsReader room n
    return v :: vs
termination_by n => (room, n + 1)

/-- Reads `n` keys and values. -/
def fieldsReader (room : Nat) : Nat → Decoder (List (String × Value))
  | 0 => return []
  | n + 1 => do
    let k ← Decoder.read Packed.readText
    let v ← reader room
    let fs ← fieldsReader room n
    return (k, v) :: fs
termination_by n => (room, n + 1)
end

end Value

namespace Document

/-- The packed form of a document. -/
def pack (d : Document) : Bytes := Packed.u64 d.length ++ Value.packFields d

/-! ## The depth check -/

/-- Values pushed one after the other onto a depth check's stack, each with the depth of the
list or document holding them, so that the last ends on top. -/
def pushAll (depth : Nat) (values : List Value) (pending : List (Value × Nat)) :
    List (Value × Nat) :=
  values.foldl (fun stack v => (v, depth) :: stack) pending

/-- The sizes of the values on a depth check's stack, which every step lowers. -/
noncomputable def pendingSize : List (Value × Nat) → Nat
  | [] => 0
  | (v, _) :: rest => sizeOf v + pendingSize rest

theorem pendingSize_pushAll (depth : Nat) (values : List Value) (pending : List (Value × Nat)) :
    pendingSize (pushAll depth values pending) < sizeOf values + pendingSize pending := by
  induction values generalizing pending with
  | nil =>
    have hnil : pushAll depth [] pending = pending := rfl
    rw [hnil, List.nil.sizeOf_spec]
    omega
  | cons v vs ih =>
    have hstep : pushAll depth (v :: vs) pending = pushAll depth vs ((v, depth) :: pending) := rfl
    have hlt := ih ((v, depth) :: pending)
    rw [pendingSize] at hlt
    rw [hstep, List.cons.sizeOf_spec]
    omega

/-- The values of a document are no larger than its fields. -/
theorem sizeOf_values_le (fields : List (String × Value)) : sizeOf (values fields) ≤ sizeOf fields := by
  induction fields with
  | nil => exact Nat.le_refl _
  | cons f fs ih =>
    obtain ⟨k, v⟩ := f
    have hvalues : values ((k, v) :: fs) = v :: values fs := rfl
    rw [hvalues, List.cons.sizeOf_spec, List.cons.sizeOf_spec, Prod.mk.sizeOf_spec]
    omega

theorem pendingSize_pop (p : Value × Nat) (rest : List (Value × Nat)) :
    pendingSize rest < pendingSize (p :: rest) := by
  obtain ⟨v, depth⟩ := p
  have hpos := Value.sizeOf_pos v
  rw [pendingSize]
  omega

theorem pendingSize_push_list (items : List Value) (depth level : Nat)
    (rest : List (Value × Nat)) :
    pendingSize (pushAll level items rest) < pendingSize ((.list items, depth) :: rest) := by
  have hlt := pendingSize_pushAll level items rest
  rw [pendingSize, Value.list.sizeOf_spec]
  omega

theorem pendingSize_push_fields (fields : List (String × Value)) (depth level : Nat)
    (rest : List (Value × Nat)) :
    pendingSize (pushAll level (values fields) rest) <
      pendingSize ((.document fields, depth) :: rest) := by
  have hlt := pendingSize_pushAll level (values fields) rest
  have hle := sizeOf_values_le fields
  rw [pendingSize, Value.document.sizeOf_spec]
  omega

/-- The depth check over a stack of values still to visit, the top first, each with the depth
of the list or document holding it (0 for a document's own fields). A list or document stands
one level below its holder: past `maxDepth` the document is too deep, and otherwise its items
are pushed with that level. -/
def tooDeepFrom : List (Value × Nat) → Bool
  | [] => false
  | (.list items, depth) :: rest =>
    if depth + 1 > maxDepth then true else tooDeepFrom (pushAll (depth + 1) items rest)
  | (.document fields, depth) :: rest =>
    if depth + 1 > maxDepth then true
    else tooDeepFrom (pushAll (depth + 1) (values fields) rest)
  | _ :: rest => tooDeepFrom rest
termination_by pending => pendingSize pending
decreasing_by
  all_goals first
    | exact pendingSize_push_list _ _ _ _
    | exact pendingSize_push_fields _ _ _ _
    | exact pendingSize_pop _ _

/-- Whether a list or document of a document sits deeper than `maxDepth`: the depth check
starts from the document's values, the last one on top. -/
def tooDeep (d : Document) : Bool := tooDeepFrom (pushAll 0 d.values [])

/-- The stored form of a document, refused if it nests too deep. -/
def encode (d : Document) : Except StoreError Bytes :=
  if d.tooDeep then .error (.documentTooDeep maxDepth) else .ok d.pack

/-- Reads a document in the packed layout: its fields, each value with `room` more levels. The
document itself opens no level. -/
def reader (room : Nat) : Decoder Document := do
  return Document.ofFields (← Value.fieldsReader room (← Decoder.read Packed.readU64))

/-- Reads a stored form as a thread whose nesting counter stands at `depth`: the document
read, and the counter afterwards. Trailing bytes are ignored. -/
def decodeOn (depth : Nat) (bs : Bytes) : Except StoreError Document × Nat :=
  match (reader (maxDepth - depth)).run ⟨bs, depth⟩ with
  | .ok d s => (.ok d, s.depth)
  | .error e s => (.error (.badDocument e), s.depth)

/-- The document a stored form holds, read by a thread whose counter is at zero, as every
thread's is between readings. -/
def decode (bs : Bytes) : Except StoreError Document := (decodeOn 0 bs).1

end Document

end ArchiveStore
