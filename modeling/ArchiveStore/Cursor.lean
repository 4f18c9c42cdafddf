import ArchiveStore.Database
/-!
# Cursors

A cursor walks the entries of one bucket as they stood when it was made, ascending or
descending by key. It starts before the first entry; each `advance` moves to the next entry,
until none is left and the cursor is exhausted for good. Only a positioned cursor has a key,
value and meta; a chunked value is joined from the chunks of the same moment.
-/

namespace ArchiveStore

/-- Where a cursor stands. -/
inductive CursorState where
  | unstarted
  | positioned (key record : Bytes)
  | exhausted
deriving DecidableEq, Repr

/-- The name of where a cursor stands. -/
def CursorState.label : CursorState → String
  | .unstarted => "Unstarted"
  | .positioned .. => "Positioned"
  | .exhausted => "Exhausted"

/-- A walk over the entries of a bucket. -/
structure Cursor where
  /-- The table as it stood when the cursor was made. -/
  snapshot : Table
  bucket : Bucket
  /-- The entries not visited yet, in visiting order, with their table keys. -/
  pending : List (Bytes × Bytes)
  state : CursorState := .unstarted

namespace Cursor

/-- A cursor over the entries of a bucket in a table, descending if `reverse`. -/
def make (t : Table) (b : Bucket) (reverse : Bool) : Cursor :=
  let rows := t.scan b.entries
  { snapshot := t, bucket := b, pending := if reverse then rows.reverse else rows }

/-- A cursor over a bucket of an open store; bounds are refused. -/
def open? (db : Database) (b : Bucket) (lo hi : Option Bytes) (reverse : Bool) :
    Except StoreError Cursor := do
  Database.requireFullRange "range" lo hi
  return make db.table b reverse

/-- Moves to the next entry; says whether there was one. -/
def advance (c : Cursor) : Bool × Cursor :=
  match c.state with
  | .exhausted => (false, c)
  | _ =>
    match c.pending with
    | (k, r) :: rest => (true, { c with pending := rest, state := .positioned k r })
    | [] => (false, { c with pending := [], state := .exhausted })

/-- The table key and record of the current entry. -/
def current (c : Cursor) : Except StoreError (Bytes × Bytes) :=
  match c.state with
  | .positioned k r => .ok (k, r)
  | .unstarted => .error (.notPositioned false)
  | .exhausted => .error (.notPositioned true)

/-- The caller's key of the current entry. -/
def key (c : Cursor) : Except StoreError Bytes := do
  return (← c.current).1.drop c.bucket.entries.length

/-- The value of the current entry. -/
def value (c : Cursor) : Except StoreError Bytes := do
  let e ← Envelope.decode (← c.current).2
  match e.info with
  | some m =>
    if m.isChunked then
      if c.bucket.chunked then (Bucket.chunks c.bucket.space).joinChunks c.snapshot m
      else .error .chunksOutsideNamespace
    else return e.payload
  | none => return e.payload

/-- The meta of the current entry. -/
def info (c : Cursor) : Except StoreError (Option Meta) := do
  return (← Envelope.decode (← c.current).2).info

/-- The current entry's value read as a document. -/
def document (c : Cursor) : Except StoreError Document := do
  Document.decode (← c.value)

end Cursor

end ArchiveStore
