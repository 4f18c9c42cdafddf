import ArchiveStore.Proofs.Contents.Writes
/-!
# Why a put can fail

On a table that shows contents and owns its chunks, storing a value in a data bucket fails
for three reasons only (`StoreError.refusesValue`): the meta asks for a negative chunk size,
a sequence counter is exhausted, or the packed meta needs more than 32 bits of length.

Every other way a store could fail is ruled out by the table: a data bucket has a chunk
store; every counter reads as a number (`Table.Shows.counters`); and the numbers the chunk
counter has not handed out name no chunk (`OwnedChunks.free_of_counter_le`), so appending a
piece never finds an old record to release (`Bucket.mapM_appendPlainIn_error`).
-/

namespace ArchiveStore

open Bucket

/-- A split size is refused only when it is negative. -/
theorem Meta.splitSize_error {m : Meta} {e : StoreError} (h : m.splitSize = .error e) :
    e.refusesValue = true := by
  unfold splitSize at h
  split at h
  · cases h
  · split at h
    · cases h
      rfl
    · cases h

/-- An envelope is refused only for a meta too large to write its length. -/
theorem Envelope.encode_error {env : Envelope} {e : StoreError} (h : env.encode = .error e) :
    e.refusesValue = true := by
  unfold encode at h
  split at h
  · cases h
  · dsimp only at h
    split at h
    · cases h
    · cases h
      rfl

namespace Txn

variable {α : Type} {t : Table} {e : StoreError}

theorem ofExcept_eq_error {x : Except StoreError α} : Txn.ofExcept x t = .error e ↔ x = .error e := by
  cases x <;> simp [ofExcept, Except.map]

/-- Handing out a number from a counter that reads as a number fails only when the counter is
exhausted. -/
theorem nextSequence_error {key : Bytes} {c : UInt64} (hc : t.counterAt key = .ok c)
    (h : nextSequence key t = .error e) : e = .counterExhausted := by
  rw [nextSequence_eq, hc] at h
  simp only [Except.bind] at h
  split at h
  · cases h
    rfl
  · cases h

end Txn

namespace Bucket

variable {b s : Bucket} {t : Table} {c : UInt64} {key value : Bytes} {e : StoreError}

/-- Storing a plain value over a record that lists no chunks writes it, in any bucket. -/
theorem putPlainIn_of_nil (h : t.refsAt (b.entryKey key) = []) :
    b.putPlainIn key value t = .ok ((), t.insert (b.entryKey key) (0x00 :: value)) := by
  unfold putPlainIn
  rw [bind_run_of_ok (releaseChunks_of_nil h)]
  rfl

/-- Appending pieces to a bucket with no chunk store, from a counter that reads as a number and
above which no entry exists, fails only when the counter is exhausted. -/
theorem mapM_appendPlainIn_error {ps : List Bytes} (hb : s.chunked = false)
    (hc : t.counterAt s.counter = .ok c)
    (hfree : ∀ i : UInt64, c.toNat ≤ i.toNat → t.get? (s.entryKey (Keys.sequence i)) = none)
    (h : ps.mapM s.appendPlainIn t = .error e) : e = .counterExhausted := by
  induction ps generalizing t c with
  | nil => simp [List.mapM_nil] at h
  | cons p ps ih =>
    rw [List.mapM_cons] at h
    rcases bind_run_eq_error.1 h with hfirst | ⟨k, t₂, hstep, hrest⟩
    · -- the first piece: its number, then its record under a fresh key
      unfold appendPlainIn at hfirst
      rcases bind_run_eq_error.1 hfirst with hnext | ⟨c', t₁, hnext, hput⟩
      · exact Txn.nextSequence_error hc hnext
      · obtain ⟨hc', -, rfl⟩ := Txn.nextSequence_eq_ok.1 hnext
        rw [hc, Except.ok.injEq] at hc'
        subst hc'
        have hnil : (t.insert s.counter (Keys.sequence (c + 1))).refsAt
            (s.entryKey (Keys.sequence c)) = [] := by
          rw [Table.refsAt_insert, if_neg (entryKey_ne_own_counter s _),
            Table.refsAt_of_get?_none (hfree c (Nat.le_refl _))]
        rw [bind_run_of_ok (putPlainIn_of_nil hnil)] at hput
        cases hput
    · -- the rest, from the raised counter
      obtain ⟨c', hc', hfit, rfl, rfl⟩ := appendPlainIn_unchunked hb hstep
      rw [hc, Except.ok.injEq] at hc'
      subst hc'
      rcases bind_run_eq_error.1 hrest with hmap | ⟨ks, t₃, -, hpure⟩
      · refine ih (counterAt_append_one s c p) (fun i hi => ?_) hmap
        have hsucc := toNat_succ hfit
        have hne : s.entryKey (Keys.sequence i) ≠ s.entryKey (Keys.sequence c) := by
          rw [Ne, entryKey_right_inj, Keys.sequence_inj]
          rintro rfl
          omega
        rw [Table.get?_insert, if_neg hne, Table.get?_insert,
          if_neg (entryKey_ne_own_counter s _), hfree i (by omega)]
      · cases hpure

/-- Building the record of a value with a meta, in a bucket with a chunk store whose counter
reads as a number and above which no chunk exists, fails only for a refused value. -/
theorem metaRecordIn_error {m : Meta} (hb : b.chunked = true)
    (hc : t.counterAt (chunks b.space).counter = .ok c)
    (hfree : ∀ i : UInt64, c.toNat ≤ i.toNat →
      t.get? ((chunks b.space).entryKey (Keys.sequence i)) = none)
    (h : b.metaRecordIn value m t = .error e) : e.refusesValue = true := by
  unfold metaRecordIn at h
  rcases bind_run_eq_error.1 h with hsplit | ⟨split, t₀, hsplit, hrest⟩
  · exact Meta.splitSize_error (Txn.ofExcept_eq_error.1 hsplit)
  obtain ⟨-, rfl⟩ := Txn.ofExcept_eq_ok.1 hsplit
  dsimp only at hrest
  cases split with
  | none => exact Envelope.encode_error (Txn.ofExcept_eq_error.1 hrest)
  | some size =>
    dsimp only at hrest
    split at hrest
    · -- the value is split: the pieces go to the chunk store, then the record is written
      rw [bind_run_of_ok (show Txn.ofExcept b.chunkStore t₀ = .ok (chunks b.space, t₀) by
        simp [chunkStore, hb])] at hrest
      rcases bind_run_eq_error.1 hrest with hmap | ⟨keys, t₁, -, henc⟩
      · rw [mapM_appendPlainIn_error rfl hc hfree hmap]
        rfl
      · exact Envelope.encode_error (Txn.ofExcept_eq_error.1 henc)
    · exact Envelope.encode_error (Txn.ofExcept_eq_error.1 hrest)

/-- Storing a value in a bucket with a chunk store whose counter reads as a number and above
which no chunk exists fails only for a refused value. -/
theorem putIn_error {info : Option Meta} (hb : b.chunked = true)
    (hc : t.counterAt (chunks b.space).counter = .ok c)
    (hfree : ∀ i : UInt64, c.toNat ≤ i.toNat →
      t.get? ((chunks b.space).entryKey (Keys.sequence i)) = none)
    (h : b.putIn key value info t = .error e) : e.refusesValue = true := by
  cases info with
  | none =>
    rw [putIn_none, putPlainIn_eq hb] at h
    cases h
  | some m =>
    rw [putIn_some_eq hb] at h
    cases hrec : b.metaRecordIn value m t with
    | error e' =>
      rw [hrec] at h
      cases h
      exact metaRecordIn_error hb hc hfree hrec
    | ok r =>
      rw [hrec] at h
      cases h

end Bucket

namespace Table.Shows

variable {c : Contents} {t : Table} {n key value : Bytes} {r : BucketRef} {info : Option Meta}
  {e : StoreError}

/-- The numbers a namespace's chunk counter has not handed out name no chunk. -/
theorem free_chunks (h : t.Shows c) (hown : t.ChunksOwned) (hn : n.length ≤ Keys.maxNameLength) :
    ∃ v, t.counterAt (chunks (Keys.namespacePrefix n)).counter = .ok v ∧
      ∀ i : UInt64, v.toNat ≤ i.toNat →
        t.get? ((chunks (Keys.namespacePrefix n)).entryKey (Keys.sequence i)) = none := by
  obtain ⟨v, hv⟩ := h.counters n .chunks hn trivial
  refine ⟨v, hv, fun i hi => ?_⟩
  have hfree := (hown n hn).free_of_counter_le hv hi
  rw [Table.contains_eq] at hfree
  simpa using hfree

/-- Storing a value in a data bucket fails only for a refused value. -/
theorem putIn_error (h : t.Shows c) (hown : t.ChunksOwned) (hn : n.length ≤ Keys.maxNameLength)
    (hr : r.Fits) (hrc : r ≠ .chunks)
    (hput : (r.bucketIn n).putIn key value info t = .error e) : e.refusesValue = true := by
  obtain ⟨v, hv, hfree⟩ := h.free_chunks hown hn
  refine Bucket.putIn_error (c := v) (r.isData hr hrc).chunked ?_ ?_ hput
  · rw [BucketRef.space_bucketIn]
    exact hv
  · rw [BucketRef.space_bucketIn]
    exact hfree

/-- Appending a value to a data bucket fails only for a refused value: the bucket's counter is
exhausted, or storing under the number handed out fails. -/
theorem appendIn_error (h : t.Shows c) (hown : t.ChunksOwned) (hn : n.length ≤ Keys.maxNameLength)
    (hr : r.Fits) (hrc : r ≠ .chunks)
    (happ : (r.bucketIn n).appendIn value info t = .error e) : e.refusesValue = true := by
  obtain ⟨v, hv⟩ := h.counters n r hn hr
  unfold Bucket.appendIn at happ
  rcases bind_run_eq_error.1 happ with hnext | ⟨i, t₁, hnext, hrest⟩
  · rw [Txn.nextSequence_error hv hnext]
    rfl
  obtain ⟨-, -, rfl⟩ := Txn.nextSequence_eq_ok.1 hnext
  rcases bind_run_eq_error.1 hrest with hput | ⟨u, t₂, -, hpure⟩
  · exact (h.insert_counter hn hr (i + 1)).putIn_error
      (hown.insert_counter (r.isData hr hrc) hn _) hn hr hrc hput
  · cases hpure

end Table.Shows

end ArchiveStore
