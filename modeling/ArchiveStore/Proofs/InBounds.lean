import ArchiveStore.Proofs.ChunkedRead
import ArchiveStore.Proofs.Cursor.Walk
/-!
# Every index and slice of the reads is in bounds

The reads of a store cut the records they find into pieces: the four length bytes, the meta
and the payload of a record, the part of an inline value a ranged read copies, the chunks a
ranged read walks, and the caller's part of a cursor's key. The definitions that run cut them
with total list operations, which never stop. Here each of those reads is written once more as
a language with bounds checks runs it: a slice outside its list, an index past the end, a
division by zero or a subtraction below zero stops the run, which is then `none`.

Main statement (`reads_stay_in_bounds`): on every table, every record and every argument the
checked reads run to the end and answer what the reads that run answer. Reading a value, a meta
or a document, a delete, an overwriting put and a cursor's value cut records only by decoding
them, so none of them stops either. A division by the chunk size comes only after the layout
check, which passes only positive sizes, and a sequence counter of the wrong length is
refused as a decoding failure.
-/

namespace ArchiveStore

namespace Checked

/-- A run that stops, as a failed bounds check does. -/
def stop {α : Type} : ExceptT StoreError Option α := ExceptT.lift none

/-- A step that cannot stop, with its answer. -/
def answer {α : Type} (r : Except StoreError α) : ExceptT StoreError Option α :=
  ExceptT.mk (some r)

/-- `xs[i]`, which stops the run past the end of `xs`. -/
def get {α : Type} (xs : List α) (i : Nat) : ExceptT StoreError Option α :=
  match xs[i]? with
  | some x => pure x
  | none => stop

/-- `xs[lo..hi]`, which stops the run unless `lo ≤ hi ≤ |xs|`. -/
def slice {α : Type} (xs : List α) (lo hi : Nat) : ExceptT StoreError Option (List α) :=
  if lo ≤ hi ∧ hi ≤ xs.length then pure ((xs.drop lo).take (hi - lo)) else stop

/-- The check of a write into `lo..hi` of a buffer of `len` bytes. -/
def within (lo hi len : Nat) : ExceptT StoreError Option Unit :=
  if lo ≤ hi ∧ hi ≤ len then pure () else stop

/-- `a - b` on lengths, which stops the run below zero. -/
def sub (a b : Nat) : ExceptT StoreError Option Nat :=
  if b ≤ a then pure (a - b) else stop

/-- `a / b`, which stops the run for `b = 0`. -/
def div (a b : Nat) : ExceptT StoreError Option Nat :=
  if b = 0 then stop else pure (a / b)

/-- `a % b`, which stops the run for `b = 0`. -/
def rem (a b : Nat) : ExceptT StoreError Option Nat :=
  if b = 0 then stop else pure (a % b)

variable {α β : Type}

/-- A run that answers never stops. -/
@[simp] theorem run_answer (r : Except StoreError α) : (answer r).run = some r := rfl

@[simp] theorem answer_ok (a : α) : answer (.ok a) = pure a := rfl

@[simp] theorem answer_error (e : StoreError) :
    answer (.error e : Except StoreError α) = throw e :=
  rfl

/-- Steps that answer compose into a step that answers. -/
theorem answer_bind {r : Except StoreError α} {f : α → ExceptT StoreError Option β}
    {g : α → Except StoreError β} (h : ∀ a, f a = answer (g a)) :
    answer r >>= f = answer (r >>= g) := by
  cases r with
  | ok a => exact h a
  | error e => rfl

theorem get_of_lt {xs : List α} {i : Nat} (h : i < xs.length) : get xs i = pure xs[i] := by
  simp [get, List.getElem?_eq_getElem h]

theorem slice_of_le {xs : List α} {lo hi : Nat} (hlo : lo ≤ hi) (hhi : hi ≤ xs.length) :
    slice xs lo hi = pure ((xs.drop lo).take (hi - lo)) :=
  if_pos ⟨hlo, hhi⟩

-- a slice past the end stops the run
example : (slice ([0x61, 0x62] : Bytes) 1 3).run = none := rfl

/-- The slice `xs[lo..]` of the part from `lo` on. -/
theorem slice_length {xs : List α} {lo : Nat} (h : lo ≤ xs.length) :
    slice xs lo xs.length = pure (xs.drop lo) := by
  rw [slice_of_le h (Nat.le_refl _), List.take_of_length_le (by simp)]

/-- The slice `xs[..hi]` of the first `hi` elements. -/
theorem slice_zero {xs : List α} {hi : Nat} (h : hi ≤ xs.length) :
    slice xs 0 hi = pure (xs.take hi) := by
  rw [slice_of_le (Nat.zero_le hi) h, List.drop_zero, Nat.sub_zero]

theorem within_of_le {lo hi len : Nat} (hlo : lo ≤ hi) (hhi : hi ≤ len) :
    within lo hi len = pure () :=
  if_pos ⟨hlo, hhi⟩

theorem sub_of_le {a b : Nat} (h : b ≤ a) : sub a b = pure (a - b) := if_pos h

theorem div_of_pos {a b : Nat} (h : 0 < b) : div a b = pure (a / b) := if_neg (by omega)

theorem rem_of_pos {a b : Nat} (h : 0 < b) : rem a b = pure (a % b) := if_neg (by omega)

end Checked

/-! ## Decoding a record -/

namespace Envelope

/-- Decoding a record with its index and slices checked: the length bytes `rest[0]` to
`rest[3]`, the body `rest[4..]`, the meta `body[..len]` and the payload `body[len..]`. -/
def decodeChecked (bytes : Bytes) : ExceptT StoreError Option Envelope :=
  match bytes with
  | [] => throw .emptyRecord
  | 0x00 :: rest => pure ⟨none, rest⟩
  | 0x01 :: rest => do
    if rest.length < 4 then throw (.shortMetaLength rest.length)
    let b₀ ← Checked.get rest 0
    let b₁ ← Checked.get rest 1
    let b₂ ← Checked.get rest 2
    let b₃ ← Checked.get rest 3
    let len := Bytes.toNatBE [b₀, b₁, b₂, b₃]
    let body ← Checked.slice rest 4 rest.length
    if body.length < len then throw (.shortMeta len body.length)
    let metaBytes ← Checked.slice body 0 len
    match Meta.reader.parse metaBytes with
    | .error e => throw (.badMeta e)
    | .ok m =>
      let payload ← Checked.slice body len body.length
      pure ⟨some m, payload⟩
  | flag :: _ => throw (.unknownFlag flag)

/-- Once its length is checked, a meta record's four length bytes and body are in bounds, and
its meta and payload are read inside the body. -/
theorem decodeChecked_meta (rest : Bytes) :
    decodeChecked (0x01 :: rest) = Checked.answer (decode (0x01 :: rest)) := by
  by_cases hshort : rest.length < 4
  · -- fewer than four length bytes: both refuse the record before any index
    simp [decodeChecked, decode, hshort]
  obtain ⟨b₀, b₁, b₂, b₃, body, rfl⟩ :
      ∃ b₀ b₁ b₂ b₃ body, rest = b₀ :: b₁ :: b₂ :: b₃ :: body := by
    rcases rest with _ | ⟨b₀, _ | ⟨b₁, _ | ⟨b₂, _ | ⟨b₃, body⟩⟩⟩⟩
    all_goals simp at hshort ⊢
  -- the four length bytes are the first four of the record, and the body the rest
  simp only [decodeChecked, decode, if_neg hshort, Checked.get, List.getElem?_cons_zero,
    List.getElem?_cons_succ, pure_bind, List.take_succ_cons, List.take_zero, List.drop_succ_cons,
    List.drop_zero]
  rw [Checked.slice_length (by simp), pure_bind]
  simp only [List.drop_succ_cons, List.drop_zero]
  generalize Bytes.toNatBE [b₀, b₁, b₂, b₃] = len
  by_cases hfit : body.length < len
  · rw [if_pos hfit, if_pos hfit]
    rfl
  rw [if_neg hfit, if_neg hfit, Checked.slice_zero (by omega), pure_bind]
  cases Meta.reader.parse (body.take len) with
  | error e => rfl
  | ok m =>
    rw [Checked.slice_length (by omega)]
    rfl

/-- Decoding never reads outside the record, and answers what `decode` answers. -/
theorem decodeChecked_eq (bytes : Bytes) : decodeChecked bytes = Checked.answer (decode bytes) := by
  rcases bytes with _ | ⟨flag, rest⟩
  · rfl
  by_cases h0 : flag = 0x00
  · subst h0
    rfl
  by_cases h1 : flag = 0x01
  · subst h1
    exact decodeChecked_meta rest
  -- any other flag: both refuse it before reading further
  have hd : decode (flag :: rest) = .error (.unknownFlag flag) := by
    unfold decode
    split
    all_goals simp_all
  have hc : decodeChecked (flag :: rest) = throw (.unknownFlag flag) := by
    unfold decodeChecked
    split
    all_goals simp_all
  rw [hd, hc]
  rfl

end Envelope

/-! ## Ranged reads -/

namespace Bucket

/-- Reading a chunk of this chunk bucket, with its record decoded as checked. -/
def readChunkChecked (b : Bucket) (t : Table) (chunkKey : Bytes) :
    ExceptT StoreError Option Bytes :=
  match t.get? (b.entryKey chunkKey) with
  | none => throw (.missingChunk chunkKey)
  | some r => do return (← Envelope.decodeChecked r).payload

/-- The copy loop of a ranged read over chunks, written with an index: `index` is the chunk at
hand in `chunks`, `skip` the bytes of it to pass over, and `copied` the bytes already copied
into a buffer of `want` bytes. The chunk key `chunks[index]`, the room `want - copied`, the
write into `copied..copied + n` and the slice `available[..n]` are checked; the loop returns
the bytes it copied. -/
def copyLoopChecked (b : Bucket) (t : Table) (chunks : List Bytes) (want index skip copied : Nat) :
    ExceptT StoreError Option Bytes :=
  if copied < want ∧ index < chunks.length then do
    let chunkKey ← Checked.get chunks index
    let chunk ← b.readChunkChecked t chunkKey
    -- the part after `skip` is taken by a lookup that may fail, and its failure is refused
    if chunk.length < skip then throw (.shortChunk index chunk.length skip)
    let available := chunk.drop skip
    let room ← Checked.sub want copied
    let n := min available.length room
    Checked.within copied (copied + n) want
    let piece ← Checked.slice available 0 n
    let rest ← b.copyLoopChecked t chunks want (index + 1) 0 (copied + n)
    return piece ++ rest
  else pure []
termination_by chunks.length - index

/-- A ranged read over chunks, with the division and remainder by the chunk size and the copy
loop checked. -/
def readChunksAtChecked (b : Bucket) (t : Table) (m : Meta) (want offset : Nat) :
    ExceptT StoreError Option Bytes := do
  let (total, size) ← Checked.answer m.layout
  if offset > total then throw (.offsetOutOfRange offset total)
  let index ← Checked.div offset size
  let skip ← Checked.rem offset size
  b.copyLoopChecked t m.chunks want index skip 0

/-- The copy of a ranged read from an inline payload, with the room `|payload| - offset`, the
write into the first `n` bytes of the buffer and the slice `payload[offset..offset + n]`
checked. -/
def copyInlineChecked (payload : Bytes) (want offset : Nat) : ExceptT StoreError Option Bytes := do
  if offset ≥ payload.length then throw (.offsetOutOfRange offset payload.length)
  let room ← Checked.sub payload.length offset
  let n := min want room
  Checked.within 0 n want
  Checked.slice payload offset (offset + n)

/-- A ranged read of an entry, with the decoding of its record and its copy checked. -/
def getAtChecked (b : Bucket) (t : Table) (key : Bytes) (want offset : Nat) :
    ExceptT StoreError Option Bytes := do
  let e ← Envelope.decodeChecked (← Checked.answer (b.record t key))
  match e.info with
  | some m =>
    if m.isChunked then
      let store ← Checked.answer b.chunkStore
      store.readChunksAtChecked t m want offset
    else copyInlineChecked e.payload want offset
  | none => copyInlineChecked e.payload want offset

variable {b : Bucket} {t : Table}

theorem readChunkChecked_eq (chunkKey : Bytes) :
    b.readChunkChecked t chunkKey = Checked.answer (b.readChunk t chunkKey) := by
  cases hr : t.get? (b.entryKey chunkKey) with
  | none => simp only [readChunkChecked, readChunk, hr]; rfl
  | some r =>
    simp only [readChunkChecked, readChunk, hr, Envelope.decodeChecked_eq]
    exact Checked.answer_bind fun _ => rfl

/-- The checked copy loop from chunk `index` on, with `copied ≤ want` bytes copied, copies what
the copy of the chunks left copies into the room left. -/
theorem copyLoopChecked_eq {chunks : List Bytes} {want : Nat} :
    ∀ {index skip copied : Nat}, copied ≤ want →
      b.copyLoopChecked t chunks want index skip copied =
        Checked.answer (b.copyChunks t (chunks.drop index) index skip (want - copied)) := by
  intro index skip copied hc
  -- induction on the chunks left, of which each turn of the loop takes one
  generalize hrest : chunks.drop index = rest
  induction rest generalizing index skip copied with
  | nil =>
    have hend : chunks.length ≤ index := List.drop_eq_nil_iff.1 hrest
    rw [copyLoopChecked, if_neg (by omega)]
    rfl
  | cons k ks ih =>
    have hidx : index < chunks.length := by
      by_contra hend
      rw [List.drop_eq_nil_of_le (by omega)] at hrest
      cases hrest
    have hcons := List.drop_eq_getElem_cons hidx
    rw [hrest] at hcons
    obtain ⟨hk, hks⟩ := List.cons.inj hcons
    by_cases hlt : copied < want
    · rw [copyLoopChecked, if_pos ⟨hlt, hidx⟩, Checked.get_of_lt hidx, pure_bind, ← hk,
        readChunkChecked_eq, copyChunks, if_neg (by omega)]
      refine Checked.answer_bind fun chunk => ?_
      by_cases hs : chunk.length < skip
      · rw [if_pos hs, if_pos hs]
        rfl
      -- the piece fits both the chunk and the room left in the buffer
      have hpiece : (chunk.drop skip).take (min (chunk.drop skip).length (want - copied)) =
          (chunk.drop skip).take (want - copied) := by
        rw [Nat.min_comm, ← List.take_eq_take_min]
      have hroom : want - (copied + min (chunk.drop skip).length (want - copied)) =
          want - copied - ((chunk.drop skip).take (want - copied)).length := by
        simp only [List.length_take]
        omega
      rw [if_neg hs, if_neg hs, Checked.sub_of_le (by omega), pure_bind]
      dsimp only
      rw [Checked.within_of_le (by omega) (by omega), pure_bind,
        Checked.slice_zero (Nat.min_le_left _ _), pure_bind,
        @ih (index + 1) 0 _ (by omega) hks.symm, hpiece, hroom]
      exact Checked.answer_bind fun _ => rfl
    · -- the buffer is full: the loop ends, as the copy of no more bytes does
      rw [copyLoopChecked, if_neg (by omega), copyChunks, if_pos (by omega)]
      rfl

/-- A checked ranged read over chunks divides by the chunk size only once the layout check has
passed, and answers what the ranged read answers. -/
theorem readChunksAtChecked_eq (m : Meta) (want offset : Nat) :
    b.readChunksAtChecked t m want offset = Checked.answer (b.readChunksAt t m want offset) := by
  cases hl : m.layout with
  | error e =>
    simp only [readChunksAtChecked, readChunksAt, hl]
    rfl
  | ok layout =>
    obtain ⟨total, size⟩ := layout
    by_cases ho : offset > total
    · rw [readChunksAt_of_lt hl ho]
      simp only [readChunksAtChecked, hl, Checked.answer_ok, pure_bind, if_pos ho]
      rfl
    have hsize := size_pos_of_layout hl
    rw [readChunksAt_of_le hl (by omega)]
    simp only [readChunksAtChecked, hl, Checked.answer_ok, pure_bind, if_neg ho,
      Checked.div_of_pos hsize, Checked.rem_of_pos hsize, copyLoopChecked_eq (Nat.zero_le want),
      Nat.sub_zero]

/-- The checked copy from an inline payload answers the part of the payload from the offset
on, cut to the buffer. -/
theorem copyInlineChecked_eq (payload : Bytes) (want offset : Nat) :
    copyInlineChecked payload want offset =
      Checked.answer
        (if offset ≥ payload.length then .error (.offsetOutOfRange offset payload.length)
          else .ok ((payload.drop offset).take want)) := by
  by_cases ho : offset ≥ payload.length
  · simp only [copyInlineChecked, if_pos ho]
    rfl
  -- the copy takes `min want (|payload| - offset)` bytes, all of them inside the payload
  have hpart : (payload.drop offset).take (min want (payload.length - offset)) =
      (payload.drop offset).take want := by
    rw [← List.length_drop, ← List.take_eq_take_min]
  simp only [copyInlineChecked, if_neg ho, Checked.sub_of_le (Nat.le_of_not_ge ho), pure_bind,
    Checked.within_of_le (Nat.zero_le _) (Nat.min_le_left _ _)]
  rw [Checked.slice_of_le (by omega) (by omega), Nat.add_sub_cancel_left, hpart]
  rfl

/-- A checked ranged read of an entry never stops, and answers what the ranged read answers. -/
theorem getAtChecked_eq (key : Bytes) (want offset : Nat) :
    b.getAtChecked t key want offset = Checked.answer (b.getAt t key want offset) := by
  unfold getAtChecked getAt
  refine Checked.answer_bind fun r => ?_
  rw [Envelope.decodeChecked_eq]
  refine Checked.answer_bind fun e => ?_
  cases e.info with
  | none => exact copyInlineChecked_eq _ _ _
  | some m =>
    dsimp only
    by_cases hc : m.isChunked
    · rw [if_pos hc, if_pos hc]
      exact Checked.answer_bind fun _ => readChunksAtChecked_eq _ _ _
    · rw [if_neg hc, if_neg hc]
      exact copyInlineChecked_eq _ _ _

end Bucket

/-! ## A cursor's key -/

namespace Cursor

variable {c : Cursor}

/-- The caller's key of the current entry, with the slice `key[|entries|..]` checked. -/
def keyChecked (c : Cursor) : ExceptT StoreError Option Bytes := do
  let (key, _) ← Checked.answer c.current
  Checked.slice key c.bucket.entries.length key.length

/-- Every entry a cursor stands on or has still to visit lies under its bucket's entries. -/
def Aligned (c : Cursor) : Prop :=
  (∀ e ∈ c.pending, c.bucket.entries <+: e.1) ∧
    ∀ k r, c.state = .positioned k r → c.bucket.entries <+: k

/-- A cursor made over a snapshot has only the entries of its bucket to visit. -/
theorem aligned_make (t : Table) (b : Bucket) (reverse : Bool) : (make t b reverse).Aligned := by
  refine ⟨fun ⟨κ, r⟩ he => (Table.mem_scan.1 (mem_make_pending he)).1, fun k r h => ?_⟩
  cases reverse <;> cases h

/-- An advance keeps a cursor aligned: it moves onto an entry it had still to visit. -/
theorem Aligned.advance (h : c.Aligned) : c.advance.2.Aligned := by
  obtain ⟨hpending, hstate⟩ := h
  unfold Cursor.advance
  split
  · exact ⟨hpending, hstate⟩
  split
  · next k r rest hp =>
    rw [hp] at hpending
    refine ⟨fun e he => hpending e (List.mem_cons_of_mem _ he), fun k' r' hs => ?_⟩
    cases hs
    exact hpending (k, r) List.mem_cons_self
  · exact ⟨fun e he => (List.not_mem_nil he).elim, fun k r hs => (by cases hs)⟩

/-- A cursor stays aligned along its advances. -/
theorem Aligned.advanced (h : c.Aligned) : ∀ n, (c.advanced n).Aligned
  | 0 => h
  | n + 1 => (h.advanced n).advance

/-- On an aligned cursor the checked key never stops, and answers the key. -/
theorem keyChecked_eq (h : c.Aligned) : c.keyChecked = Checked.answer c.key := by
  unfold keyChecked key current
  split
  · next k r hs =>
    rw [Checked.answer_ok, pure_bind]
    dsimp only
    rw [Checked.slice_length (h.2 k r hs).length_le]
    rfl
  · rfl
  · rfl

end Cursor

/-- A sequence counter whose record is not eight bytes long is refused as a decoding failure,
and no number is handed out. -/
theorem Txn.nextSequence_of_length_ne {t : Table} {key raw : Bytes} (hraw : t.get? key = some raw)
    (hlen : raw.length ≠ 8) : Txn.nextSequence key t = .error (.badSequence raw.length) := by
  rw [Txn.nextSequence_eq, Table.counterAt, hraw]
  simp only [Keys.readSequence, if_neg hlen]
  rfl

/-- No read cuts a record, a value or a key outside its bounds. On every table, record and
argument: decoding a record, a ranged read of an entry and a ranged read over chunks, each
written with every index, slice, subtraction and division checked, run to the end and answer
what the reads answer; the division by the chunk size comes after the layout check, which
passes only positive sizes; the key of a cursor made over a snapshot, after any number of
advances, is cut inside the key of the entry it stands on; and a sequence counter of a length
other than eight is refused as a decoding failure. -/
theorem reads_stay_in_bounds :
    (∀ record : Bytes, (Envelope.decodeChecked record).run = some (Envelope.decode record)) ∧
    (∀ (b : Bucket) (t : Table) (key : Bytes) (want offset : Nat),
      (b.getAtChecked t key want offset).run = some (b.getAt t key want offset)) ∧
    (∀ (s : Bucket) (t : Table) (m : Meta) (want offset : Nat),
      (s.readChunksAtChecked t m want offset).run = some (s.readChunksAt t m want offset)) ∧
    (∀ (m : Meta) (total size : Nat), m.layout = .ok (total, size) → 0 < size) ∧
    (∀ (t : Table) (b : Bucket) (reverse : Bool) (n : Nat),
      ((Cursor.make t b reverse).advanced n).keyChecked.run =
        some ((Cursor.make t b reverse).advanced n).key) ∧
    (∀ (t : Table) (key raw : Bytes), t.get? key = some raw → raw.length ≠ 8 →
      Txn.nextSequence key t = .error (.badSequence raw.length) ∧
        (StoreError.badSequence raw.length).kind = .decode) := by
  refine ⟨fun record => ?_, fun b t key want offset => ?_, fun s t m want offset => ?_,
    fun m total size hl => Bucket.size_pos_of_layout hl, fun t b reverse n => ?_,
    fun t key raw hraw hlen => ⟨Txn.nextSequence_of_length_ne hraw hlen, rfl⟩⟩
  · rw [Envelope.decodeChecked_eq]
    rfl
  · rw [Bucket.getAtChecked_eq]
    rfl
  · rw [Bucket.readChunksAtChecked_eq]
    rfl
  · rw [Cursor.keyChecked_eq ((Cursor.aligned_make t b reverse).advanced n)]
    rfl

/-- A counter record of three bytes is refused as a decoding failure, and the sample chunked
meta, whose layout passes, has a positive chunk size. -/
theorem counter_of_three_bytes_refused :
    Sample.chunkedMeta.layout = .ok (6, 4) ∧ 0 < 4 ∧
      (Table.empty.insert [0x63] [0x00, 0x00, 0x01]).get? [0x63] = some [0x00, 0x00, 0x01] ∧
      Txn.nextSequence [0x63] (Table.empty.insert [0x63] [0x00, 0x00, 0x01]) =
        .error (.badSequence 3) := by
  have hget : (Table.empty.insert [0x63] [0x00, 0x00, 0x01]).get? [0x63] =
      some [0x00, 0x00, 0x01] := by
    simp
  exact ⟨Sample.layout_chunkedMeta,
    reads_stay_in_bounds.2.2.2.1 _ _ _ Sample.layout_chunkedMeta, hget,
    (reads_stay_in_bounds.2.2.2.2.2 _ _ _ hget (by decide)).1⟩

end ArchiveStore
