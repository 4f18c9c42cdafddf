import ArchiveStore.Bucket.Write
import ArchiveStore.NameList
import ArchiveStore.Proofs.Table
import ArchiveStore.Proofs.Envelope
/-!
# What the writes of a bucket do to the table

One equation or inversion lemma per write of `Bucket.Write`, so that proofs about the store
never unfold a transaction:

* `Bucket.releaseChunks_eq`: releasing removes the chunk entries the old record lists
  (`Table.release`);
* `Bucket.putPlainIn_eq`, `Bucket.deleteIn_eq`, `Bucket.clearIn_eq`: plain writes, deletes
  and clearing a bucket, as tables;
* `Bucket.mapM_appendPlainIn` and `Bucket.metaRecordIn_eq_ok`: a value that is split goes to
  the chunk bucket under consecutive numbers from its counter's on (`Table.appendPlain`,
  `Bucket.chunkKeys`), and its meta lists exactly those keys;
* `Bucket.putIn_some_eq`, `Bucket.appendIn_eq_ok`, `NameList.addIn_eq`.
-/

namespace ArchiveStore

namespace Table

/-- The chunk keys the record under a key lists; none when there is no record. -/
def refsAt (t : Table) (κ : Bytes) : List Bytes :=
  match t.get? κ with
  | some r => Bucket.chunkRefs r
  | none => []

/-- The table without the chunk entries, in a chunk bucket, that the record under a key lists. -/
def release (t : Table) (store : Bucket) (κ : Bytes) : Table :=
  t.eraseAll ((t.refsAt κ).map store.entryKey)

/-- Removing two lists of keys one after the other removes both. -/
theorem eraseAll_append (t : Table) (ks ks' : List Bytes) :
    (t.eraseAll ks).eraseAll ks' = t.eraseAll (ks ++ ks') := by
  simp [eraseAll, List.foldl_append]

/-- The table after plain values are appended to a bucket from sequence number `c` on: each
value under the next number, with the counter raised past it. -/
def appendPlain (t : Table) (s : Bucket) (c : UInt64) : List Bytes → Table
  | [] => t
  | p :: ps =>
    ((t.insert s.counter (Keys.sequence (c + 1))).insert (s.entryKey (Keys.sequence c))
      (0x00 :: p)).appendPlain s (c + 1) ps

end Table

/-- The meta a value is stored with: the caller's, with the value's length and a chunk list. -/
def Meta.storedFor (m : Meta) (value : Bytes) (keys : List Bytes) : Meta :=
  { m with totalLength := UInt64.ofNat value.length, chunks := keys }

/-- A value with bytes has at least one piece. -/
theorem Bytes.pieces_ne_nil {size : Nat} {bs : Bytes} (h : bs ≠ []) : Bytes.pieces size bs ≠ [] := by
  cases bs with
  | nil => exact absurd rfl h
  | cons x rest =>
    rw [Bytes.pieces]
    split <;> simp

namespace Bucket

/-- The keys of `n` values appended from sequence number `c` on. -/
def chunkKeys (c : UInt64) : Nat → List Bytes
  | 0 => []
  | n + 1 => Keys.sequence c :: chunkKeys (c + 1) n

/-- A word below the largest one steps up by one without wrapping. -/
theorem toNat_succ {c : UInt64} (h : c.toNat + 1 < Nat.pow 2 64) : (c + 1).toNat = c.toNat + 1 := by
  rw [UInt64.toNat_add, UInt64.toNat_one]
  exact Nat.mod_eq_of_lt h

/-- The keys handed out for `n` values from number `c` on are the numbers from `c` to
`c + n - 1`, when that run does not pass the largest word. -/
theorem mem_chunkKeys {c : UInt64} {n : Nat} {k : Bytes} (hfit : c.toNat + n ≤ Nat.pow 2 64) (hk : k ∈ chunkKeys c n) :
    ∃ i : UInt64, k = Keys.sequence i ∧ c.toNat ≤ i.toNat ∧ i.toNat < c.toNat + n := by
  induction n generalizing c with
  | zero => cases hk
  | succ n ih =>
    rcases List.mem_cons.1 hk with rfl | hk
    · exact ⟨c, rfl, Nat.le_refl _, by omega⟩
    · -- a later key: the run from `c + 1` is not empty, so `c + 1` did not wrap
      have hn : 0 < n := by
        cases n with
        | zero => cases hk
        | succ n => omega
      have hsucc := toNat_succ (c := c) (by omega)
      obtain ⟨i, rfl, hlo, hhi⟩ := ih (by omega) hk
      exact ⟨i, rfl, by omega, by omega⟩

/-- The keys handed out for a run that does not pass the largest word are distinct. -/
theorem nodup_chunkKeys {c : UInt64} {n : Nat} (hfit : c.toNat + n ≤ Nat.pow 2 64) : (chunkKeys c n).Nodup := by
  induction n generalizing c with
  | zero => exact List.nodup_nil
  | succ n ih =>
    refine List.nodup_cons.2 ⟨fun hmem => ?_, ?_⟩
    · -- every later key is above `c`
      have hn : 0 < n := by
        cases n with
        | zero => cases hmem
        | succ n => omega
      have hsucc := toNat_succ (c := c) (by omega)
      obtain ⟨i, hi, hlo, -⟩ := mem_chunkKeys (c := c + 1) (by omega) hmem
      rw [Keys.sequence_inj] at hi
      subst hi
      omega
    · rcases Nat.eq_zero_or_pos n with rfl | hn
      · exact List.nodup_nil
      · exact ih (by rw [toNat_succ (by omega)]; omega)

@[simp] theorem length_chunkKeys (c : UInt64) (n : Nat) : (chunkKeys c n).length = n := by
  induction n generalizing c with
  | zero => rfl
  | succ n ih => simp [chunkKeys, ih]

/-- A plain record lists no chunks. -/
@[simp] theorem chunkRefs_plain (v : Bytes) : chunkRefs (0x00 :: v) = [] := rfl

/-- A record encoded from a meta lists the chunks of the meta. -/
theorem chunkRefs_of_encode {m : Meta} {p r : Bytes} (h : Envelope.encode ⟨some m, p⟩ = .ok r) :
    chunkRefs r = m.chunks := by
  have hd := Envelope.decode_encode ⟨some m, p⟩
  rw [h] at hd
  change Envelope.decode r = .ok ⟨some m, p⟩ at hd
  simp only [chunkRefs, hd]

variable {b : Bucket} {t : Table} {κ : Bytes}

/-- Releasing the chunks of an entry of a bucket with a chunk store removes exactly the chunk
entries its record lists. -/
theorem releaseChunks_eq (hb : b.chunked = true) (κ : Bytes) (t : Table) :
    b.releaseChunks κ t = .ok ((), t.release (chunks b.space) κ) := by
  unfold releaseChunks Table.release Table.refsAt
  rw [bind_run_of_ok Txn.get?_run]
  cases t.get? κ with
  | none => rfl
  | some r =>
    dsimp only
    by_cases hr : (chunkRefs r).isEmpty
    · rw [if_pos hr, List.isEmpty_iff.1 hr]
      rfl
    · rw [if_neg hr, bind_run_of_ok (show Txn.ofExcept b.chunkStore t = .ok (chunks b.space, t) by
        simp [chunkStore, hb])]
      exact bind_run_of_ok (Txn.forIn_delete _ _ t)

/-- Releasing the chunks of a record that lists none changes nothing, in any bucket. -/
theorem releaseChunks_of_nil (h : t.refsAt κ = []) : b.releaseChunks κ t = .ok ((), t) := by
  unfold releaseChunks
  rw [bind_run_of_ok Txn.get?_run]
  unfold Table.refsAt at h
  cases hr : t.get? κ with
  | none => rfl
  | some r =>
    rw [hr] at h
    dsimp only
    rw [if_pos (List.isEmpty_iff.2 h)]
    rfl

/-- In a bucket with no chunk store, releasing succeeds only on a record that lists no chunks,
and then changes nothing. -/
theorem releaseChunks_unchunked {u : Unit} {t' : Table} (hb : b.chunked = false)
    (h : b.releaseChunks κ t = .ok (u, t')) : t.refsAt κ = [] ∧ t' = t := by
  by_cases hnil : t.refsAt κ = []
  · rw [releaseChunks_of_nil hnil] at h
    cases h
    exact ⟨hnil, rfl⟩
  · -- a record that lists chunks sends the release to the missing chunk store
    unfold releaseChunks at h
    rw [bind_run_of_ok Txn.get?_run] at h
    unfold Table.refsAt at hnil
    cases hr : t.get? κ with
    | none => rw [hr] at hnil; exact absurd rfl hnil
    | some r =>
      rw [hr] at hnil h
      dsimp only at h hnil
      have hstore : Txn.ofExcept b.chunkStore t =
          (.error (.noChunkStore b.name) : Except StoreError (Bucket × Table)) := by
        simp [chunkStore, hb]
      rw [if_neg (by simpa [List.isEmpty_iff] using hnil), bind_run_of_error hstore] at h
      cases h

/-- Storing a plain value releases the old record's chunks, then writes the value. -/
theorem putPlainIn_eq (hb : b.chunked = true) (key value : Bytes) (t : Table) :
    b.putPlainIn key value t =
      .ok ((), (t.release (chunks b.space) (b.entryKey key)).insert (b.entryKey key)
        (0x00 :: value)) := by
  unfold putPlainIn
  rw [bind_run_of_ok (releaseChunks_eq hb _ t)]
  rfl

/-- Deleting an entry releases its chunks, then removes it. -/
theorem deleteIn_eq (hb : b.chunked = true) (key : Bytes) (t : Table) :
    b.deleteIn key t =
      let t₁ := t.release (chunks b.space) (b.entryKey key)
      .ok (t₁.contains (b.entryKey key), t₁.erase (b.entryKey key)) := by
  unfold deleteIn
  rw [bind_run_of_ok (releaseChunks_eq hb _ t)]
  rfl

/-- Storing a plain value in a bucket with no chunk store writes it and nothing else. -/
theorem putPlainIn_unchunked {key value : Bytes} {u : Unit} {t' : Table} (hb : b.chunked = false)
    (h : b.putPlainIn key value t = .ok (u, t')) :
    t' = t.insert (b.entryKey key) (0x00 :: value) := by
  obtain ⟨_, t₁, hrel, hset⟩ := bind_run_eq_ok.1 h
  obtain ⟨-, rfl⟩ := releaseChunks_unchunked hb hrel
  simp only [Txn.set_run, Except.ok.injEq, Prod.mk.injEq] at hset
  exact hset.2.symm

/-- Appending a plain value to a bucket with no chunk store takes the counter's number, raises
the counter and writes the value under that number. -/
theorem appendPlainIn_unchunked {value k : Bytes} {t' : Table} (hb : b.chunked = false)
    (h : b.appendPlainIn value t = .ok (k, t')) :
    ∃ c, t.counterAt b.counter = .ok c ∧ c.toNat + 1 < Nat.pow 2 64 ∧ k = Keys.sequence c ∧
      t' = (t.insert b.counter (Keys.sequence (c + 1))).insert (b.entryKey (Keys.sequence c))
        (0x00 :: value) := by
  obtain ⟨c, t₁, hnext, hrest⟩ := bind_run_eq_ok.1 h
  obtain ⟨hc, hfit, rfl⟩ := Txn.nextSequence_eq_ok.1 hnext
  obtain ⟨_, t₂, hput, hret⟩ := bind_run_eq_ok.1 hrest
  simp only [Txn.pure_run, Except.ok.injEq, Prod.mk.injEq] at hret
  obtain ⟨rfl, rfl⟩ := hret
  exact ⟨c, hc, hfit, rfl, putPlainIn_unchunked hb hput⟩

/-- After one appended value, the counter reads one more. -/
theorem counterAt_append_one (b : Bucket) (c : UInt64) (value : Bytes) :
    ((t.insert b.counter (Keys.sequence (c + 1))).insert (b.entryKey (Keys.sequence c))
      (0x00 :: value)).counterAt b.counter = .ok (c + 1) := by
  simp [Table.counterAt, (entryKey_ne_own_counter b _).symm, Keys.readSequence_sequence]

/-- Appending the pieces of a value to a bucket with no chunk store, one after another: they go
under consecutive numbers from the counter's on, none of them past the largest word. -/
theorem mapM_appendPlainIn {ps keys : List Bytes} {t' : Table} (hb : b.chunked = false)
    (hps : ps ≠ []) (h : ps.mapM b.appendPlainIn t = .ok (keys, t')) :
    ∃ c, t.counterAt b.counter = .ok c ∧ c.toNat + ps.length < Nat.pow 2 64 ∧
      keys = chunkKeys c ps.length ∧ t' = t.appendPlain b c ps := by
  induction ps generalizing t keys t' with
  | nil => exact absurd rfl hps
  | cons p ps ih =>
    rw [List.mapM_cons] at h
    obtain ⟨k, t₁, hstep, hrest⟩ := bind_run_eq_ok.1 h
    obtain ⟨ks, t₂, hmap, hret⟩ := bind_run_eq_ok.1 hrest
    simp only [Txn.pure_run, Except.ok.injEq, Prod.mk.injEq] at hret
    obtain ⟨rfl, rfl⟩ := hret
    obtain ⟨c, hc, hfit, rfl, rfl⟩ := appendPlainIn_unchunked hb hstep
    refine ⟨c, hc, ?_⟩
    cases ps with
    | nil =>
      simp only [List.mapM_nil, Txn.pure_run, Except.ok.injEq, Prod.mk.injEq] at hmap
      obtain ⟨rfl, rfl⟩ := hmap
      exact ⟨hfit, rfl, rfl⟩
    | cons p' ps =>
      -- the rest starts from the raised counter
      obtain ⟨c', hc', hfit', rfl, rfl⟩ := ih (List.cons_ne_nil _ _) hmap
      rw [counterAt_append_one, Except.ok.injEq] at hc'
      subst hc'
      rw [toNat_succ hfit] at hfit'
      refine ⟨?_, rfl, rfl⟩
      simp only [List.length_cons] at hfit' ⊢
      omega

/-- What building the record of a value with a meta can do: keep the value inline, when the
meta asks for no split or the value fits one chunk; or append the value's pieces to the chunk
bucket under consecutive numbers from its counter's on, and list their keys in the meta. -/
theorem metaRecordIn_eq_ok {value record : Bytes} {m : Meta} {t₁ : Table}
    (h : b.metaRecordIn value m t = .ok (record, t₁)) :
    (Envelope.encode ⟨some (m.storedFor value []), value⟩ = .ok record ∧ t₁ = t ∧
      (m.splitSize = .ok none ∨ ∃ size, m.splitSize = .ok (some size) ∧ value.length ≤ size)) ∨
    (∃ size c, m.splitSize = .ok (some size) ∧ size < value.length ∧ b.chunked = true ∧
      t.counterAt (chunks b.space).counter = .ok c ∧
      c.toNat + (Bytes.pieces size value).length < Nat.pow 2 64 ∧
      t₁ = t.appendPlain (chunks b.space) c (Bytes.pieces size value) ∧
      Envelope.encode
        ⟨some (m.storedFor value (chunkKeys c (Bytes.pieces size value).length)), []⟩ =
          .ok record) := by
  unfold metaRecordIn at h
  obtain ⟨split, t₀, hrun, hrest⟩ := bind_run_eq_ok.1 h
  obtain ⟨hsplit, rfl⟩ := Txn.ofExcept_eq_ok.1 hrun
  dsimp only at hrest
  cases split with
  | none =>
    obtain ⟨henc, rfl⟩ := Txn.ofExcept_eq_ok.1 hrest
    exact .inl ⟨henc, rfl, .inl hsplit⟩
  | some size =>
    dsimp only at hrest
    by_cases hlt : size < value.length
    · -- the value is split: the chunk store must exist, and the pieces go there
      rw [if_pos hlt] at hrest
      obtain ⟨store, t₂, hrun, hrest⟩ := bind_run_eq_ok.1 hrest
      obtain ⟨hstore, rfl⟩ := Txn.ofExcept_eq_ok.1 hrun
      have hchunked : b.chunked = true := by
        unfold chunkStore at hstore
        split at hstore
        · assumption
        · cases hstore
      obtain rfl : store = chunks b.space := by simpa [chunkStore, hchunked] using hstore.symm
      obtain ⟨keys, t₃, hkeys, hrun⟩ := bind_run_eq_ok.1 hrest
      obtain ⟨henc, rfl⟩ := Txn.ofExcept_eq_ok.1 hrun
      obtain ⟨c, hc, hfit, rfl, rfl⟩ :=
        mapM_appendPlainIn rfl (Bytes.pieces_ne_nil (List.ne_nil_of_length_pos (by omega))) hkeys
      exact .inr ⟨size, c, hsplit, hlt, hchunked, hc, hfit, rfl, henc⟩
    · rw [if_neg hlt] at hrest
      obtain ⟨henc, rfl⟩ := Txn.ofExcept_eq_ok.1 hrest
      exact .inl ⟨henc, rfl, .inr ⟨size, hsplit, by omega⟩⟩

/-- Storing a value with a meta builds its record, then releases the old record's chunks and
writes the new record. -/
theorem putIn_some_eq (hb : b.chunked = true) (key value : Bytes) (m : Meta) (t : Table) :
    b.putIn key value (some m) t = (b.metaRecordIn value m t).bind fun r =>
      .ok ((), (r.2.release (chunks b.space) (b.entryKey key)).insert (b.entryKey key) r.1) := by
  unfold putIn
  dsimp only
  cases hm : b.metaRecordIn value m t with
  | error e => exact bind_run_of_error hm
  | ok r =>
    obtain ⟨record, t₁⟩ := r
    rw [bind_run_of_ok hm, bind_run_of_ok (releaseChunks_eq hb _ t₁)]
    rfl

/-- Storing a value with no meta stores it plain. -/
theorem putIn_none (key value : Bytes) : b.putIn key value none = b.putPlainIn key value := rfl

/-- What a successful store writes, by the shape of the record. A value kept inline, plain or
with its meta, replaces the entry's record once the old record's chunks are released. A value
split into chunks first has its pieces appended to the chunk bucket from its counter's number
on, and its record lists their keys. -/
theorem putIn_eq_ok_cases {key value : Bytes} {info : Option Meta} {u : Unit} {t' : Table}
    (hb : b.chunked = true) (h : b.putIn key value info t = .ok (u, t')) :
    (∃ record, (info = none ∧ record = 0x00 :: value ∨
        ∃ m, info = some m ∧ Envelope.encode ⟨some (m.storedFor value []), value⟩ = .ok record) ∧
      t' = (t.release (chunks b.space) (b.entryKey key)).insert (b.entryKey key) record) ∨
    (∃ m size c record, info = some m ∧ m.splitSize = .ok (some size) ∧ size < value.length ∧
      t.counterAt (chunks b.space).counter = .ok c ∧
      c.toNat + (Bytes.pieces size value).length < Nat.pow 2 64 ∧
      Envelope.encode
        ⟨some (m.storedFor value (chunkKeys c (Bytes.pieces size value).length)), []⟩ =
          .ok record ∧
      t' = ((t.appendPlain (chunks b.space) c (Bytes.pieces size value)).release (chunks b.space)
        (b.entryKey key)).insert (b.entryKey key) record) := by
  cases info with
  | none =>
    rw [putIn_none, putPlainIn_eq hb] at h
    cases h
    exact .inl ⟨_, .inl ⟨rfl, rfl⟩, rfl⟩
  | some m =>
    rw [putIn_some_eq hb] at h
    cases hrec : b.metaRecordIn value m t with
    | error e => rw [hrec] at h; cases h
    | ok r =>
      obtain ⟨record, t₁⟩ := r
      rw [hrec] at h
      simp only [Except.bind, Except.ok.injEq, Prod.mk.injEq] at h
      obtain ⟨-, rfl⟩ := h
      rcases metaRecordIn_eq_ok hrec with
        ⟨henc, rfl, -⟩ | ⟨size, c, hsplit, hlt, -, hc, hfit, rfl, henc⟩
      · exact .inl ⟨record, .inr ⟨m, rfl, henc⟩, rfl⟩
      · exact .inr ⟨m, size, c, record, rfl, hsplit, hlt, hc, hfit, henc, rfl⟩

/-- What a successful store does, whatever the meta: it appends a run of pieces (possibly
none) to the chunk bucket from its counter's number on, releases the chunks of the record it
replaces, and writes a record that lists exactly the keys of the run. -/
theorem putIn_eq_ok {key value : Bytes} {info : Option Meta} {u : Unit} {t' : Table}
    (hb : b.chunked = true) (h : b.putIn key value info t = .ok (u, t')) :
    ∃ c ps record,
      (ps = [] ∨ t.counterAt (chunks b.space).counter = .ok c ∧
        c.toNat + ps.length < Nat.pow 2 64) ∧
      chunkRefs record = chunkKeys c ps.length ∧
      t' = ((t.appendPlain (chunks b.space) c ps).release (chunks b.space)
        (b.entryKey key)).insert (b.entryKey key) record := by
  rcases putIn_eq_ok_cases hb h with
    ⟨record, hrec, rfl⟩ | ⟨m, size, c, record, -, -, -, hc, hfit, henc, rfl⟩
  · -- an inline record lists no chunks
    refine ⟨0, [], record, .inl rfl, ?_, rfl⟩
    rcases hrec with ⟨-, rfl⟩ | ⟨m, -, henc⟩
    · rfl
    · exact chunkRefs_of_encode henc
  · exact ⟨c, _, record, .inr ⟨hc, hfit⟩, chunkRefs_of_encode henc, rfl⟩

/-- Appending a value takes the bucket counter's number, raises the counter, and stores the
value under that number. -/
theorem appendIn_eq_ok {value k : Bytes} {info : Option Meta} {t' : Table}
    (h : b.appendIn value info t = .ok (k, t')) :
    ∃ c, t.counterAt b.counter = .ok c ∧ c.toNat + 1 < Nat.pow 2 64 ∧ k = Keys.sequence c ∧
      b.putIn k value info (t.insert b.counter (Keys.sequence (c + 1))) = .ok ((), t') := by
  obtain ⟨c, t₁, hnext, hrest⟩ := bind_run_eq_ok.1 h
  obtain ⟨hc, hfit, rfl⟩ := Txn.nextSequence_eq_ok.1 hnext
  obtain ⟨u, t₂, hput, hret⟩ := bind_run_eq_ok.1 hrest
  simp only [Txn.pure_run, Except.ok.injEq, Prod.mk.injEq] at hret
  obtain ⟨rfl, rfl⟩ := hret
  exact ⟨c, hc, hfit, rfl, hput⟩

/-- Deleting, for each record of a list, the chunk entries it lists. -/
theorem forIn_release (store : Bucket) (es : List (Bytes × Bytes)) (t : Table) :
    (forIn es PUnit.unit fun x _ => do
        forIn (chunkRefs x.2) PUnit.unit fun r _ => do
          let _ ← Txn.delete (store.entryKey r)
          pure (ForInStep.yield PUnit.unit)
        pure (ForInStep.yield PUnit.unit) : Txn PUnit) t =
      .ok ((), t.eraseAll ((es.flatMap fun e => chunkRefs e.2).map store.entryKey)) := by
  induction es generalizing t with
  | nil => rfl
  | cons e es ih =>
    obtain ⟨k, r⟩ := e
    rw [List.forIn_cons]
    dsimp only
    rw [bind_run_of_ok (bind_run_of_ok (Txn.forIn_delete _ _ t))]
    refine (ih _).trans ?_
    rw [Table.eraseAll_append, List.flatMap_cons, List.map_append]

/-- Clearing a bucket with a chunk store removes the chunk entries its entries list, then every
key under its prefix. -/
theorem clearIn_eq (hb : b.chunked = true) (t : Table) :
    b.clearIn t = .ok ((), (t.eraseAll (((t.scan b.entries).flatMap fun e => chunkRefs e.2).map
      (chunks b.space).entryKey)).erasePrefix b.keyPrefix) := by
  unfold clearIn
  rw [if_pos hb]
  dsimp only
  rw [bind_run_of_ok Txn.scan_run, bind_run_of_ok (forIn_release _ _ t)]
  rfl

end Bucket

namespace Table

open Bucket

open Bucket

variable {s : Bucket} {t : Table} {c : UInt64} {ps : List Bytes} {a : Bytes}

/-- Appending values changes only the bucket's counter and the entries it hands out. -/
theorem get?_appendPlain_of_ne (hctr : a ≠ s.counter)
    (hkeys : ∀ k ∈ chunkKeys c ps.length, a ≠ s.entryKey k) :
    (t.appendPlain s c ps).get? a = t.get? a := by
  induction ps generalizing t c with
  | nil => rfl
  | cons p ps ih =>
    simp only [List.length_cons, chunkKeys, List.mem_cons, forall_eq_or_imp] at hkeys
    rw [appendPlain, ih hkeys.2, get?_insert, get?_insert, if_neg hkeys.1, if_neg hctr]

/-- Appending values keeps every key that was there. -/
theorem contains_appendPlain_of_contains (h : t.contains a) :
    (t.appendPlain s c ps).contains a := by
  induction ps generalizing t c with
  | nil => exact h
  | cons p ps ih =>
    apply ih
    rw [contains_eq, get?_insert, get?_insert]
    split
    · rfl
    · split
      · rfl
      · rwa [contains_eq] at h

/-- Appending values writes each key it hands out. -/
theorem contains_appendPlain_entry {k : Bytes} (hk : k ∈ chunkKeys c ps.length) :
    (t.appendPlain s c ps).contains (s.entryKey k) := by
  induction ps generalizing t c with
  | nil => cases hk
  | cons p ps ih =>
    rw [appendPlain]
    rcases List.mem_cons.1 hk with rfl | hk
    · exact contains_appendPlain_of_contains (by simp [contains_eq])
    · exact ih hk

/-- After appending a nonempty run without passing the largest word, the counter holds the
number after the run. -/
theorem counterAt_appendPlain (hps : ps ≠ []) (hc : t.counterAt s.counter = .ok c)
    (hfit : c.toNat + ps.length < Nat.pow 2 64) :
    ∃ v, (t.appendPlain s c ps).counterAt s.counter = .ok v ∧ v.toNat = c.toNat + ps.length := by
  induction ps generalizing t c with
  | nil => exact absurd rfl hps
  | cons p ps ih =>
    simp only [List.length_cons] at hfit
    have hsucc := toNat_succ (c := c) (by omega)
    rw [appendPlain]
    cases ps with
    | nil => exact ⟨c + 1, counterAt_append_one s c p, by simp [hsucc]⟩
    | cons p' ps =>
      obtain ⟨v, hv, hval⟩ := ih (List.cons_ne_nil _ _) (counterAt_append_one s c p)
        (by simp only [List.length_cons] at hfit ⊢; omega)
      exact ⟨v, hv, by simp only [List.length_cons] at hval ⊢; omega⟩

/-! ### What the writes leave for the chunk lists and chunk entries -/

section Views

variable {t t' : Table} {a k v κ x : Bytes} {s : Bucket}

theorem refsAt_congr (h : t'.get? a = t.get? a) : t'.refsAt a = t.refsAt a := by
  simp only [refsAt, h]

theorem counterAt_congr (h : t'.get? a = t.get? a) : t'.counterAt a = t.counterAt a := by
  simp only [counterAt, h]

theorem refsAt_of_get?_none (h : t.get? a = none) : t.refsAt a = [] := by
  simp only [refsAt, h]

/-- A written record lists its own chunks. -/
@[simp] theorem refsAt_insert :
    (t.insert k v).refsAt a = if a = k then chunkRefs v else t.refsAt a := by
  by_cases h : a = k
  · simp [refsAt, h]
  · simp only [refsAt, get?_insert, h, if_false]

/-- Releasing touches only chunk entries. -/
theorem get?_release_of_ne (h : ∀ x, a ≠ s.entryKey x) : (t.release s κ).get? a = t.get? a := by
  unfold release
  rw [get?_eraseAll, if_neg]
  simp only [List.mem_map, not_exists, not_and]
  exact fun x _ hx => h x hx.symm

/-- After a release, a chunk entry is there exactly when it was and the released record did
not list it. -/
theorem contains_release_entry :
    (t.release s κ).contains (s.entryKey x) = true ↔
      x ∉ t.refsAt κ ∧ t.contains (s.entryKey x) = true := by
  have hmem : s.entryKey x ∈ (t.refsAt κ).map s.entryKey ↔ x ∈ t.refsAt κ := by
    simp [entryKey_right_inj]
  unfold release
  rw [contains_eq, get?_eraseAll, contains_eq]
  by_cases hx : x ∈ t.refsAt κ
  · simp [hmem.2 hx, hx]
  · simp [mt hmem.1 hx, hx]

/-- After values are appended, a chunk entry is there exactly when it was or was handed out. -/
theorem contains_appendPlain_iff {c : UInt64} {ps : List Bytes} :
    (t.appendPlain s c ps).contains (s.entryKey x) = true ↔
      t.contains (s.entryKey x) = true ∨ x ∈ chunkKeys c ps.length := by
  constructor
  · intro h
    by_cases hx : x ∈ chunkKeys c ps.length
    · exact .inr hx
    · left
      have hne : ∀ k ∈ chunkKeys c ps.length, s.entryKey x ≠ s.entryKey k :=
        fun k hk heq => hx ((entryKey_right_inj s).1 heq ▸ hk)
      rwa [contains_eq, get?_appendPlain_of_ne (entryKey_ne_own_counter s x) hne,
        ← contains_eq] at h
  · rintro (h | h)
    · exact contains_appendPlain_of_contains h
    · exact contains_appendPlain_entry h

/-- The chunks the entries under a prefix list are the chunks some key under the prefix lists. -/
theorem mem_flatMap_scan_iff {p : Bytes} :
    x ∈ (t.scan p).flatMap (fun e => chunkRefs e.2) ↔ ∃ κ', p <+: κ' ∧ x ∈ t.refsAt κ' := by
  simp only [List.mem_flatMap, Prod.exists, mem_scan]
  constructor
  · rintro ⟨κ', r, ⟨hp, hr⟩, hx⟩
    exact ⟨κ', hp, by simp [refsAt, hr, hx]⟩
  · rintro ⟨κ', hp, hx⟩
    unfold refsAt at hx
    cases hr : t.get? κ' with
    | none => simp [hr] at hx
    | some r =>
      rw [hr] at hx
      exact ⟨κ', r, ⟨hp, hr⟩, hx⟩

end Views

end Table

namespace NameList

/-- Adding a name reads the list, and writes it back with the name at the end unless the name
is already there. -/
theorem addIn_eq (key name : Bytes) (t : Table) :
    addIn key name t = (read t key).bind fun names =>
      if names.contains name then .ok (false, t)
      else .ok (true, t.insert key (pack (names ++ [name]))) := by
  unfold addIn read
  rw [bind_run_of_ok Txn.get?_run]
  cases decode (t.get? key) with
  | error e => exact bind_run_of_error rfl
  | ok names =>
    rw [bind_run_of_ok Txn.ofExcept_ok]
    show _ = if names.contains name then _ else _
    by_cases h : names.contains name
    · rw [if_pos h, if_pos h]
      rfl
    · rw [if_neg h, if_neg h]
      exact bind_run_of_ok Txn.set_run

/-- Adding a name leaves the table as it was or writes the list's key, and nothing else. -/
theorem addIn_eq_ok {key name : Bytes} {added : Bool} {t t' : Table}
    (h : addIn key name t = .ok (added, t')) : t' = t ∨ ∃ v, t' = t.insert key v := by
  rw [addIn_eq] at h
  cases hread : read t key with
  | error e => rw [hread] at h; cases h
  | ok names =>
    rw [hread] at h
    simp only [Except.bind] at h
    split at h
    · cases h
      exact .inl rfl
    · cases h
      exact .inr ⟨_, rfl⟩

end NameList

end ArchiveStore
