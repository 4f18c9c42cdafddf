import ArchiveStore.Cursor
import ArchiveStore.Proofs.Table
/-!
# A cursor walks its bucket's snapshot

A cursor is made from a table, a bucket and a direction, and holds the bucket's entries of
that table as the list still to visit. Each `advance` takes the head of that list, until the
list is empty and the cursor is exhausted for good. `Cursor.advanced_eq` describes the cursor
after any number of advances at once: the entries not visited yet are the list with the first
`n` dropped, and it stands on the `n`-th entry (`Cursor.stateAfter`).

The entries are the bucket's own, ascending by key: a table lists its keys in strictly
ascending byte order (`Table.entries_ascending`), a prefix scan keeps the keys that start with
the bucket's entry prefix, and cutting that prefix keeps the order (`Bucket.callerKeys`).
A positioned cursor reads its entry's value and meta as a read of the same key of the snapshot
does (`Cursor.value_eq_ok_iff`, `Cursor.info_of_get`).
-/

namespace ArchiveStore

/-! ## Keys in byte order -/

namespace Bytes

/-- The order a table sorts its keys by is byte order. -/
theorem compare_eq_lt_iff : ∀ {x y : Bytes}, compare x y = .lt ↔ x < y
  | [], [] => by simp [List.lt_irrefl]
  | [], _ :: _ => by simp [List.nil_lt_cons]
  | _ :: _, [] => by simp [List.not_lt_nil]
  | a :: x, b :: y => by
    rw [List.compare_cons_cons, List.cons_lt_cons_iff, ← compare_eq_lt_iff]
    -- the first bytes decide, unless they are equal
    rcases hab : compare a b with _ | _ | _
    · simp [Std.compare_eq_lt.1 hab]
    · simp [Std.LawfulEqOrd.compare_eq_iff_eq.1 hab, UInt8.lt_irrefl]
    · have hba : b < a := Std.compare_eq_lt.1 (Std.OrientedOrd.eq_swap.trans (by rw [hab]; rfl))
      simp [UInt8.lt_asymm hba, (UInt8.ne_of_lt hba).symm]

/-- Bytes in front of both sides do not change their order. -/
theorem append_lt_append_iff (q x y : Bytes) : q ++ x < q ++ y ↔ x < y := by
  induction q with
  | nil => rfl
  | cons a q ih => simp [ih]

end Bytes

namespace Table

variable {t : Table} {p : Bytes}

/-- A table lists its keys in strictly ascending byte order. -/
theorem entries_ascending (t : Table) : (t.entries.map (·.1)).Pairwise (· < ·) := by
  have h : t.entries.Pairwise fun a b => compare a.1 b.1 = .lt := Std.TreeMap.ordered_keys_toList
  rw [List.pairwise_map]
  exact h.imp Bytes.compare_eq_lt_iff.1

/-- A prefix scan lists its keys in strictly ascending byte order. -/
theorem scan_ascending (t : Table) (p : Bytes) : ((t.scan p).map (·.1)).Pairwise (· < ·) := by
  rw [List.pairwise_map]
  exact (List.pairwise_map.1 (entries_ascending t)).sublist List.filter_sublist

end Table

namespace Bucket

variable {b : Bucket} {t : Table} {k : Bytes}

/-- The caller keys of a bucket's entries in a table, ascending. -/
def callerKeys (b : Bucket) (t : Table) : List Bytes :=
  (t.scan b.entries).map fun e => e.1.drop b.entries.length

/-- A key the bucket's prefix scan lists is an entry key of the bucket. -/
theorem eq_entryKey_of_mem_scan {κ r : Bytes} (h : (κ, r) ∈ t.scan b.entries) :
    κ = b.entryKey (κ.drop b.entries.length) ∧ t.get? κ = some r := by
  obtain ⟨hpre, hget⟩ := Table.mem_scan.1 h
  obtain ⟨k, rfl⟩ := hpre
  exact ⟨by rw [List.drop_left]; rfl, hget⟩

/-- The caller keys of a bucket ascend strictly. -/
theorem callerKeys_ascending : (b.callerKeys t).Pairwise (· < ·) := by
  unfold callerKeys
  rw [List.pairwise_map]
  refine (List.pairwise_map.1 (Table.scan_ascending t b.entries)).imp_of_mem ?_
  -- both keys start with the entry prefix, which the order looks past
  rintro ⟨κ₁, r₁⟩ ⟨κ₂, r₂⟩ h₁ h₂ hlt
  have e₁ := (eq_entryKey_of_mem_scan h₁).1
  have e₂ := (eq_entryKey_of_mem_scan h₂).1
  rw [e₁, e₂] at hlt
  exact (Bytes.append_lt_append_iff _ _ _).1 hlt

/-- The caller keys of a bucket are exactly the keys it contains. -/
theorem mem_callerKeys : k ∈ b.callerKeys t ↔ b.contains t k = true := by
  simp only [callerKeys, List.mem_map, contains, Table.contains_eq, Option.isSome_iff_exists]
  constructor
  · rintro ⟨⟨κ, r⟩, hmem, rfl⟩
    exact ⟨r, (eq_entryKey_of_mem_scan hmem).1 ▸ (eq_entryKey_of_mem_scan hmem).2⟩
  · rintro ⟨r, hr⟩
    refine ⟨(b.entryKey k, r), Table.mem_scan.2 ⟨List.prefix_append _ _, hr⟩, ?_⟩
    exact List.drop_left

theorem length_callerKeys : (b.callerKeys t).length = b.count t := by
  simp [callerKeys, count]

/-- An entry key of a bucket lies in its own namespace only, for names of at most 255 bytes. -/
theorem eq_of_namespacePrefix_entryKey {n n' : Bytes} (hs : b.space = Keys.namespacePrefix n)
    (hn : n.length ≤ Keys.maxNameLength) (hn' : n'.length ≤ Keys.maxNameLength)
    (hp : Keys.namespacePrefix n' <+: b.entryKey k) : n' = n := by
  rw [entryKey_eq, Keys.bucketPrefix, hs, List.append_assoc] at hp
  exact (Keys.namespacePrefix_prefix_iff hn' hn).1 hp

end Bucket

/-! ## Advancing -/

namespace Cursor

variable {c : Cursor} {k r : Bytes}

/-- The cursor after `n` advances. -/
def advanced (c : Cursor) : Nat → Cursor
  | 0 => c
  | n + 1 => (c.advanced n).advance.2

/-- Advancing once and then `n` times is advancing `n + 1` times. -/
theorem advanced_succ (c : Cursor) (n : Nat) : c.advance.2.advanced n = c.advanced (n + 1) := by
  induction n with
  | zero => rfl
  | succ n ih =>
    rw [advanced, ih]
    rfl

/-- Where a cursor stands after `n` advances: where it stood, then on each entry it had still
to visit in turn, then exhausted. -/
def stateAfter (c : Cursor) : Nat → CursorState
  | 0 => c.state
  | n + 1 => match c.pending[n]? with
    | some (k, r) => .positioned k r
    | none => .exhausted

/-- A cursor that has not run out stands somewhere other than past its end for as long as
entries are left. -/
theorem stateAfter_ne_exhausted (hs : c.state ≠ .exhausted) {n : Nat}
    (hn : n ≤ c.pending.length) : c.stateAfter n ≠ .exhausted := by
  cases n with
  | zero => exact hs
  | succ n =>
    have hlt : n < c.pending.length := hn
    rw [stateAfter, List.getElem?_eq_getElem hlt]
    exact CursorState.noConfusion

/-- The cursor after `n` advances has visited the first `n` entries it had still to visit and
stands on the last of them, or is exhausted once none is left. -/
theorem advanced_eq (hs : c.state ≠ .exhausted) (n : Nat) :
    c.advanced n = { c with pending := c.pending.drop n, state := c.stateAfter n } := by
  induction n with
  | zero => rfl
  | succ n ih =>
    rw [advanced, ih]
    cases hn : c.pending[n]? with
    | some e =>
      -- an entry is left: the cursor moves onto it
      obtain ⟨k, r⟩ := e
      have hlt : n < c.pending.length := (List.getElem?_eq_some_iff.1 hn).1
      have hdrop : c.pending.drop n = (k, r) :: c.pending.drop (n + 1) := by
        rw [List.drop_eq_getElem_cons hlt, (List.getElem?_eq_some_iff.1 hn).2]
      have hstate := stateAfter_ne_exhausted hs (Nat.le_of_lt hlt)
      simp only [advance, hdrop]
      simp only [stateAfter, hn]
    | none =>
      -- nothing is left: the cursor is, or becomes, exhausted
      have hle : c.pending.length ≤ n := List.getElem?_eq_none_iff.1 hn
      have hdrop : c.pending.drop n = [] := List.drop_eq_nil_of_le hle
      have hdrop' : c.pending.drop (n + 1) = [] := List.drop_eq_nil_of_le (by omega)
      simp only [advance, hdrop]
      split
      · next hex =>
        rw [hex]
        simp only [stateAfter, hn, hdrop']
      · simp only [stateAfter, hn, hdrop']

/-- The `n + 1`-th advance of a cursor that has not run out finds an entry exactly when more
than `n` were left to visit. -/
theorem advance_advanced (hs : c.state ≠ .exhausted) (n : Nat) :
    (c.advanced n).advance.1 = true ↔ n < c.pending.length := by
  rw [advanced_eq hs]
  by_cases hlt : n < c.pending.length
  · have hdrop : c.pending.drop n = c.pending[n] :: c.pending.drop (n + 1) :=
      List.drop_eq_getElem_cons hlt
    simp only [advance, hdrop, hlt, iff_true]
    split
    · next hex => exact absurd hex (stateAfter_ne_exhausted hs (Nat.le_of_lt hlt))
    · rfl
  · have hdrop : c.pending.drop n = [] := List.drop_eq_nil_of_le (Nat.le_of_not_lt hlt)
    simp only [advance, hdrop, hlt, iff_false]
    split <;> simp

/-! ## What a cursor reads -/

theorem ok_bind {ε α β : Type} {a : α} {f : α → Except ε β} : (Except.ok a >>= f) = f a := rfl

theorem error_bind {ε α β : Type} {e : ε} {f : α → Except ε β} :
    (Except.error e >>= f) = .error e := rfl

/-- Two reads that both fail agree that neither gave a value. -/
theorem refused_iff {ε α β : Type} {e e' : ε} {v : α} :
    (Except.error e : Except ε α) = .ok v ↔
      ∃ m : β, (Except.error e' : Except ε (α × β)) = .ok (v, m) := by
  constructor
  · intro h
    cases h
  · intro h
    obtain ⟨_, h⟩ := h
    cases h

/-- A read of a value and a read of it with a meta agree on the value. -/
theorem read_iff {ε α β : Type} {a v : α} {m₀ : β} :
    (Except.ok a : Except ε α) = .ok v ↔
      ∃ m, (Except.ok (a, m₀) : Except ε (α × β)) = .ok (v, m) := by
  constructor
  · intro h
    cases h
    exact ⟨m₀, rfl⟩
  · intro h
    obtain ⟨_, h⟩ := h
    cases h
    rfl

/-- A cursor that stands nowhere refuses every read with the reason. -/
theorem reads_of_current_error {e : StoreError} (h : c.current = .error e) :
    c.key = .error e ∧ c.value = .error e ∧ c.info = .error e := by
  simp only [key, value, info, h]
  exact ⟨rfl, rfl, rfl⟩

theorem current_unstarted (h : c.state = .unstarted) : c.current = .error (.notPositioned false) := by
  simp [current, h]

theorem current_exhausted (h : c.state = .exhausted) : c.current = .error (.notPositioned true) := by
  simp [current, h]

/-- A positioned cursor's key is the caller's key of its entry. -/
theorem key_of_current {key : Bytes} (hc : c.current = .ok (c.bucket.entryKey key, r)) :
    c.key = .ok key := by
  simp only [Cursor.key, hc, ok_bind]
  rw [Bucket.entryKey, Keys.entryKey, List.drop_left]
  rfl

/-- The record a read finds under a key the snapshot holds. -/
theorem record_eq {b : Bucket} {t : Table} {key : Bytes} (hr : t.get? (b.entryKey key) = some r) :
    b.record t key = .ok r := by
  simp [Bucket.record, hr]

section Positioned

variable {key : Bytes} (hc : c.current = .ok (c.bucket.entryKey key, r))
  (hr : c.snapshot.get? (c.bucket.entryKey key) = some r)
include hc hr

omit hr in
/-- A positioned cursor's meta is its entry's. -/
theorem info_eq : c.info = (Envelope.decode r).map (·.info) := by
  simp only [Cursor.info, hc, ok_bind]
  cases Envelope.decode r <;> rfl

/-- A positioned cursor reads the meta a read of its key returns. -/
theorem info_of_get {v : Bytes} {m : Option Meta} (hg : c.bucket.get c.snapshot key = .ok (v, m)) :
    c.info = .ok m := by
  rw [info_eq hc]
  simp only [Bucket.get, record_eq hr, ok_bind] at hg
  cases hd : Envelope.decode r with
  | error e =>
    rw [hd] at hg
    cases hg
  | ok e =>
    rw [hd, ok_bind] at hg
    -- every branch of the read returns the envelope's meta beside the value
    cases hi : e.info with
    | none =>
      rw [hi] at hg
      cases hg
      exact congrArg Except.ok hi
    | some m' =>
      rw [hi] at hg
      simp only at hg
      split at hg
      · obtain ⟨_, -, hg⟩ := Except.bind_eq_ok.1 hg
        obtain ⟨_, -, hg⟩ := Except.bind_eq_ok.1 hg
        cases hg
        exact congrArg Except.ok hi
      · cases hg
        exact congrArg Except.ok hi

/-- In a bucket with a chunk store, a positioned cursor's value is what a read of its key in
the snapshot returns, errors included. -/
theorem value_eq_of_chunked (hb : c.bucket.chunked = true) :
    c.value = (c.bucket.get c.snapshot key).map (·.1) := by
  simp only [Cursor.value, hc, Bucket.get, record_eq hr, ok_bind]
  cases Envelope.decode r with
  | error e => rfl
  | ok e =>
    simp only [ok_bind]
    cases e.info with
    | none => rfl
    | some m =>
      by_cases hm : m.isChunked = true
      · simp only [hm, if_true, hb, Bucket.chunkStore, ok_bind]
        cases (Bucket.chunks c.bucket.space).joinChunks c.snapshot m <;> rfl
      · simp only [hm]
        rfl

/-- In the chunk bucket itself, which has no chunk store, a positioned cursor refuses an entry
that lists chunks as one whose chunks lie outside a namespace, where a read of its key refuses
it as a bucket that cannot hold chunked values. -/
theorem value_of_chunked_outside (hb : c.bucket.chunked = false) {e : Envelope} {m : Meta}
    (hd : Envelope.decode r = .ok e) (hi : e.info = some m) (hm : m.isChunked = true) :
    c.value = .error .chunksOutsideNamespace ∧
      c.bucket.get c.snapshot key = .error (.noChunkStore c.bucket.name) := by
  constructor
  · simp only [Cursor.value, hc, ok_bind, hd, hi, hm, hb, if_true, Bool.false_eq_true, if_false]
  · simp only [Bucket.get, record_eq hr, ok_bind, hd, hi, hm, if_true, Bucket.chunkStore, hb,
      Bool.false_eq_true, if_false, error_bind]

/-- An entry kept inline is read as its envelope's payload, by the cursor and by a read. -/
theorem value_of_inline {e : Envelope} (hd : Envelope.decode r = .ok e)
    (hi : ∀ m, e.info = some m → m.isChunked = false) :
    c.value = .ok e.payload ∧ c.bucket.get c.snapshot key = .ok (e.payload, e.info) := by
  simp only [Cursor.value, Bucket.get, hc, record_eq hr, ok_bind, hd]
  cases h : e.info with
  | none => exact ⟨rfl, rfl⟩
  | some m =>
    simp only [hi m h, Bool.false_eq_true, if_false]
    exact ⟨rfl, rfl⟩

/-- A positioned cursor reads a value exactly when a read of its key in the snapshot does, and
then the same value. -/
theorem value_eq_ok_iff {v : Bytes} :
    c.value = .ok v ↔ ∃ m, c.bucket.get c.snapshot key = .ok (v, m) := by
  cases hb : c.bucket.chunked
  · -- no chunk store: an entry that lists chunks is refused by both
    cases hd : Envelope.decode r with
    | error e =>
      simp only [Cursor.value, Bucket.get, hc, record_eq hr, ok_bind, hd]
      exact refused_iff
    | ok e =>
      by_cases hout : ∃ m, e.info = some m ∧ m.isChunked = true
      · obtain ⟨m, hi, hm⟩ := hout
        obtain ⟨hv, hg⟩ := value_of_chunked_outside hc hr hb hd hi hm
        rw [hv, hg]
        exact refused_iff
      · -- the entry is kept inline: both read its payload
        have hinline : ∀ m, e.info = some m → m.isChunked = false := fun m hi => by
          cases hm : m.isChunked
          · rfl
          · exact absurd ⟨m, hi, hm⟩ hout
        obtain ⟨hv, hg⟩ := value_of_inline hc hr hd hinline
        rw [hv, hg]
        exact read_iff
  · rw [value_eq_of_chunked hc hr hb]
    cases c.bucket.get c.snapshot key with
    | error e => exact refused_iff
    | ok p => exact read_iff

end Positioned

/-! ## A cursor over a snapshot -/

section Made

variable {t : Table} {b : Bucket} {reverse : Bool}

/-- The caller keys a cursor made over a snapshot visits, in visiting order. -/
theorem map_make_pending :
    (make t b reverse).pending.map (fun e => e.1.drop b.entries.length) =
      if reverse then (b.callerKeys t).reverse else b.callerKeys t := by
  cases reverse <;> simp [make, Bucket.callerKeys, List.map_reverse]

theorem length_make_pending : (make t b reverse).pending.length = b.count t := by
  cases reverse <;> simp [make, Bucket.count]

/-- Every entry a cursor made over a snapshot has to visit is an entry of its bucket there. -/
theorem mem_make_pending {κ r : Bytes} (h : (κ, r) ∈ (make t b reverse).pending) :
    (κ, r) ∈ t.scan b.entries := by
  cases reverse
  · exact h
  · exact List.mem_reverse.1 h

/-- After its `i + 1`-th advance, a cursor made over a snapshot stands on the `i`-th entry it
had to visit, over the same snapshot and bucket. -/
theorem make_advanced {i : Nat} {κ r : Bytes} (h : (make t b reverse).pending[i]? = some (κ, r)) :
    ((make t b reverse).advanced (i + 1)).state = .positioned κ r ∧
      ((make t b reverse).advanced (i + 1)).snapshot = t ∧
      ((make t b reverse).advanced (i + 1)).bucket = b := by
  rw [advanced_eq (by simp [make])]
  exact ⟨by simp [stateAfter, h], rfl, rfl⟩

/-- A cursor made over a snapshot that has not moved yet, or has moved past its last entry,
stands nowhere. -/
theorem make_advanced_exhausted (reverse : Bool) {n : Nat} (hn : b.count t < n) :
    ((make t b reverse).advanced n).state = .exhausted := by
  rw [advanced_eq (by simp [make])]
  obtain ⟨m, rfl⟩ : ∃ m, n = m + 1 := ⟨n - 1, by omega⟩
  have hnone : (make t b reverse).pending[m]? = none :=
    List.getElem?_eq_none_iff.2 (by rw [length_make_pending]; omega)
  simp [stateAfter, hnone]

/-- After its `i + 1`-th advance, a cursor made over a snapshot stands on the entry of the
`i`-th key it visits: its key is that key, and it reads the value and meta a read of that key
in the snapshot returns. -/
theorem make_advanced_reads {i : Nat} {k : Bytes}
    (h : ((make t b reverse).pending.map fun e => e.1.drop b.entries.length)[i]? = some k) :
    (∃ r, ((make t b reverse).advanced (i + 1)).state = .positioned (b.entryKey k) r ∧
      t.get? (b.entryKey k) = some r) ∧
    ((make t b reverse).advanced (i + 1)).key = .ok k ∧
    (∀ v, ((make t b reverse).advanced (i + 1)).value = .ok v ↔ ∃ m, b.get t k = .ok (v, m)) ∧
    (∀ v m, b.get t k = .ok (v, m) → ((make t b reverse).advanced (i + 1)).info = .ok m) ∧
    (b.chunked = true → ((make t b reverse).advanced (i + 1)).value = (b.get t k).map (·.1)) := by
  rw [List.getElem?_map] at h
  obtain ⟨⟨κ, r⟩, he, rfl⟩ := Option.map_eq_some_iff.1 h
  obtain ⟨hκ, hr⟩ := Bucket.eq_entryKey_of_mem_scan (mem_make_pending (List.mem_of_getElem? he))
  obtain ⟨hstate, hsnap, hbuck⟩ := make_advanced he
  -- the cursor stands on the entry, over the snapshot and bucket it was made with
  have hcur : ((make t b reverse).advanced (i + 1)).current =
      .ok (((make t b reverse).advanced (i + 1)).bucket.entryKey (κ.drop b.entries.length), r) := by
    rw [hbuck, ← hκ]
    simp [current, hstate]
  have hget : ((make t b reverse).advanced (i + 1)).snapshot.get?
      (((make t b reverse).advanced (i + 1)).bucket.entryKey (κ.drop b.entries.length)) = some r := by
    rw [hsnap, hbuck, ← hκ]
    exact hr
  refine ⟨⟨r, hκ ▸ hstate, hκ ▸ hr⟩, key_of_current hcur, fun v => ?_, fun v m hg => ?_,
    fun hb => ?_⟩
  · have hvalue := value_eq_ok_iff hcur hget (v := v)
    rwa [hsnap, hbuck] at hvalue
  · exact info_of_get hcur hget (by rwa [hsnap, hbuck])
  · have hchunked := value_eq_of_chunked hcur hget (by rwa [hbuck])
    rwa [hsnap, hbuck] at hchunked

end Made

end Cursor

end ArchiveStore
