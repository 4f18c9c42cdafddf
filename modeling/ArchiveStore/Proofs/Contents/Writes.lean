import ArchiveStore.Proofs.Contents.Tables
/-!
# The writes of a bucket, on the contents a table shows

Each write of a bucket moves the contents its table shows by the matching operation of
`Contents`, provided the table's chunks are owned by its entries (`Table.ChunksOwned`):

* `Table.Shows.putIn` and `Table.Shows.appendIn`: `Contents.put`, under the caller's key or
  under the number the bucket's counter hands out;
* `Table.Shows.deleteIn`: `Contents.erase`;
* `Table.Shows.clearIn`: `Contents.clearBucket`;
* `Table.Shows.erasePrefix`: `Contents.clearSpace`, for a namespace emptied at once;
* `Table.Shows.addIn_namespaceList` and `Table.Shows.addIn_bucketList`: the stored name
  lists are no entries, so the contents stay;
* `Table.Shows.forIn_putIn`: `Contents.putObjects`, for the objects of a combined write.

A put of a value split into chunks reads back only when the value is shorter than 2^64
bytes, since its meta keeps its length as a 64-bit word; a value stored with no meta is kept
inline whatever its length.
-/

namespace ArchiveStore

open Bucket Table.ChunksOwned

namespace Table

variable {t : Table} {s : Bucket} {c : UInt64} {ps : List Bytes} {a : Bytes}

/-- A counter with no record reads as zero. -/
theorem counterAt_of_get?_none (h : t.get? a = none) : t.counterAt a = .ok 0 := by
  simp only [counterAt, h]

/-- Appending values keeps every counter reading as a number: the bucket's own moves past the
run, and every other stays as it was. -/
theorem counterAt_appendPlain_of_ok (ha : ∀ k, a ≠ s.entryKey k)
    (hrun : ps = [] ∨ t.counterAt s.counter = .ok c ∧ c.toNat + ps.length < Nat.pow 2 64)
    (hok : ∃ v, t.counterAt a = .ok v) : ∃ v, (t.appendPlain s c ps).counterAt a = .ok v := by
  by_cases hctr : a = s.counter
  · subst hctr
    rcases hrun with rfl | ⟨hc, hfit⟩
    · exact hok
    · cases ps with
      | nil => exact hok
      | cons p ps =>
        obtain ⟨v, hv, -⟩ := counterAt_appendPlain (List.cons_ne_nil p ps) hc hfit
        exact ⟨v, hv⟩
  · obtain ⟨v, hv⟩ := hok
    exact ⟨v, (counterAt_congr (get?_appendPlain_of_ne hctr fun k _ => ha k)).trans hv⟩

end Table

namespace OwnedChunks

variable {sp κ : Bytes} {t : Table}

open Table

/-- Clearing a data bucket keeps every data entry outside it and the records of the chunks
that entry lists: a released chunk is listed by an entry of the cleared bucket, and by
ownership by no other entry. -/
theorem clear_keeps (h : OwnedChunks sp t) {b₀ : Bucket} (hb₀ : b₀.IsData sp) (hκ : DataKey sp κ)
    (hout : ¬ b₀.keyPrefix <+: κ) :
    ((t.eraseAll (((t.scan b₀.entries).flatMap fun e => chunkRefs e.2).map
        (chunks sp).entryKey)).erasePrefix b₀.keyPrefix).get? κ = t.get? κ ∧
      ∀ x ∈ t.refsAt κ, ((t.eraseAll (((t.scan b₀.entries).flatMap fun e => chunkRefs e.2).map
        (chunks sp).entryKey)).erasePrefix b₀.keyPrefix).get? ((chunks sp).entryKey x) =
          t.get? ((chunks sp).entryKey x) := by
  refine ⟨?_, fun x hx => ?_⟩
  · rw [get?_erasePrefix, if_neg hout, get?_eraseAll, if_neg]
    simp only [List.mem_map, not_exists, not_and]
    exact fun y _ hy => hκ.ne_chunk y hy.symm
  · rw [get?_erasePrefix, if_neg (hb₀.not_keyPrefix_chunk x), get?_eraseAll, if_neg]
    rintro hmem
    obtain ⟨y, hy, heq⟩ := List.mem_map.1 hmem
    rw [entryKey_right_inj] at heq
    subst heq
    obtain ⟨κ', hD, hmem'⟩ := mem_flatMap_scan_iff.1 hy
    obtain ⟨k, rfl⟩ := entries_prefix_iff.1 hD
    have hsame := h.unique _ κ y ⟨b₀, k, hb₀, rfl⟩ hκ hmem' hx
    have hentries : b₀.keyPrefix <+: b₀.entries := ⟨[0x00], rfl⟩
    exact hout (hsame ▸ hentries.trans hD)

end OwnedChunks

namespace ReadsAs

open Table

variable {sp key value : Bytes} {b : Bucket} {t t' : Table} {info : Option Meta}

/-- The entry a store writes reads back as the value and meta stored. A value split into
chunks needs its length to fit a 64-bit word; the chunks it is cut into are fresh, so
releasing the old record's chunks leaves them. -/
theorem stored (h : OwnedChunks sp t) (hb : b.IsData sp)
    (hv : info = none ∨ value.length < Nat.pow 2 64) {u : Unit}
    (hput : b.putIn key value info t = .ok (u, t')) :
    ReadsAs b t' key (some (Contents.entryOf value info)) := by
  have hκ : DataKey sp (b.entryKey key) := ⟨b, key, hb, rfl⟩
  rcases putIn_eq_ok_cases hb.chunked hput with
    ⟨record, hrec, rfl⟩ | ⟨m, size, c, record, rfl, hsplit, hlt, hc, hfit, henc, rfl⟩
  · have hget : ((t.release (chunks b.space) (b.entryKey key)).insert (b.entryKey key)
        record).get? (b.entryKey key) = some record := by
      rw [get?_insert, if_pos rfl]
    rcases hrec with ⟨rfl, rfl⟩ | ⟨m, rfl, henc⟩
    · exact .plain hget
    · exact .inline hget henc
  · have hlen : value.length < Nat.pow 2 64 := by
      rcases hv with hv | hv
      · cases hv
      · exact hv
    refine .chunked hb.chunked (by rw [get?_insert, if_pos rfl]) henc hsplit hlt hlen ?_
    rw [hb.space] at hc ⊢
    refine chunkPayloads_congr (fun y hy => ?_) (chunkPayloads_appendPlain (t := t) (by omega))
    -- the chunks handed out are not among those the old record lists
    have hrefs : (t.appendPlain (chunks sp) c (Bytes.pieces size value)).refsAt (b.entryKey key) =
        t.refsAt (b.entryKey key) :=
      refsAt_congr (get?_appendPlain_of_ne hκ.ne_chunkCounter fun k _ => hκ.ne_chunk k)
    have hnot : y ∉ t.refsAt (b.entryKey key) := fun hy₀ =>
      h.not_mem_chunkKeys hκ hy₀ hc (by omega) hy
    rw [get?_insert, if_neg (Ne.symm (hκ.ne_chunk y)), get?_release_entry_of_not_mem (hrefs ▸ hnot)]

end ReadsAs

namespace Table.Shows

open Table

variable {c : Contents} {t t' : Table} {n key value : Bytes} {r : BucketRef} {info : Option Meta}

/-- In one namespace, a counter is no entry of a bucket. -/
theorem counter_ne_entryKey {r' : BucketRef} (hr : r.Fits) (hr' : r'.Fits) (k : Bytes) :
    (r'.bucketIn n).counter ≠ (r.bucketIn n).entryKey k :=
  (entryKey_ne_counter (by simp) (BucketRef.name_le hr) (BucketRef.name_le hr')).symm

/-- In one namespace, a counter is no chunk entry. -/
theorem counter_ne_chunk {r' : BucketRef} (hr' : r'.Fits) (x : Bytes) :
    (r'.bucketIn n).counter ≠ (chunks (Keys.namespacePrefix n)).entryKey x :=
  counter_ne_entryKey (r := .chunks) trivial hr' x

/-- Storing a value in a data bucket puts it into the contents. -/
theorem putIn (h : t.Shows c) (hown : t.ChunksOwned) (hn : n.length ≤ Keys.maxNameLength)
    (hr : r.Fits) (hrc : r ≠ .chunks) (hv : info = none ∨ value.length < Nat.pow 2 64)
    {u : Unit} (hput : (r.bucketIn n).putIn key value info t = .ok (u, t')) :
    t'.Shows (c.put n r key value info) := by
  have hb : (r.bucketIn n).IsData (Keys.namespacePrefix n) := r.isData hr hrc
  have hκ₀ : DataKey (Keys.namespacePrefix n) ((r.bucketIn n).entryKey key) := ⟨_, key, hb, rfl⟩
  have hstored := ReadsAs.stored (hown n hn) hb hv hput
  obtain ⟨c₀, ps, record, hrun, -, rfl⟩ := putIn_eq_ok hb.chunked hput
  rw [BucketRef.space_bucketIn] at hrun hstored ⊢
  refine h.update hn (fun a ha => ?_) (fun n' hne => ?_) (fun r' k hr' hrc' => ?_)
    (fun r' hr' => ?_)
  · -- every key the store touches lies in the namespace
    rw [get?_insert, if_neg (ne_of_outside hκ₀.within_space ha),
      get?_release_of_ne fun x => ne_of_outside (chunk_in_namespace x) ha,
      get?_appendPlain_of_ne (ne_of_outside chunkCounter_in_namespace ha)
        fun k _ => ne_of_outside (chunk_in_namespace k) ha]
  · funext r' k
    simp [hne]
  · by_cases heq : r' = r ∧ k = key
    · obtain ⟨rfl, rfl⟩ := heq
      rw [Contents.put_apply, if_pos ⟨rfl, rfl, rfl⟩]
      exact hstored
    · -- another entry of the namespace keeps its record and its chunks
      rw [Contents.put_apply, if_neg fun ⟨_, h₁, h₂⟩ => heq ⟨h₁, h₂⟩]
      have hκ : DataKey (Keys.namespacePrefix n) ((r'.bucketIn n).entryKey k) :=
        ⟨_, k, r'.isData hr' hrc', rfl⟩
      have hne : (r'.bucketIn n).entryKey k ≠ (r.bucketIn n).entryKey key := fun he =>
        heq ((BucketRef.entryKey_bucketIn_inj hn hn hr' hr).1 he).2
      obtain ⟨hentry, hchunks⟩ := (hown n hn).store_keeps (v := record) hκ₀ hκ hne hrun
      refine (h.reads n r' k hn hr' hrc').congr (r'.isData hr' hrc').chunked hentry ?_
      rw [BucketRef.space_bucketIn]
      exact hchunks
  · obtain ⟨v, hv⟩ := counterAt_appendPlain_of_ok (counter_ne_chunk hr') hrun (h.counters n r' hn hr')
    refine ⟨v, (counterAt_congr ?_).trans hv⟩
    rw [get?_insert, if_neg (counter_ne_entryKey hr hr' key), get?_release_of_ne (counter_ne_chunk hr')]

/-- Removing an entry of a data bucket erases it from the contents. -/
theorem deleteIn (h : t.Shows c) (hown : t.ChunksOwned) (hn : n.length ≤ Keys.maxNameLength)
    (hr : r.Fits) (hrc : r ≠ .chunks) {found : Bool}
    (hdel : (r.bucketIn n).deleteIn key t = .ok (found, t')) : t'.Shows (c.erase n r key) := by
  have hb : (r.bucketIn n).IsData (Keys.namespacePrefix n) := r.isData hr hrc
  have hκ₀ : DataKey (Keys.namespacePrefix n) ((r.bucketIn n).entryKey key) := ⟨_, key, hb, rfl⟩
  rw [deleteIn_eq hb.chunked] at hdel
  simp only [Except.ok.injEq, Prod.mk.injEq] at hdel
  obtain ⟨-, rfl⟩ := hdel
  rw [BucketRef.space_bucketIn]
  refine h.update hn (fun a ha => ?_) (fun n' hne => ?_) (fun r' k hr' hrc' => ?_)
    (fun r' hr' => ?_)
  · rw [get?_erase, if_neg (ne_of_outside hκ₀.within_space ha),
      get?_release_of_ne fun x => ne_of_outside (chunk_in_namespace x) ha]
  · funext r' k
    simp [hne]
  · by_cases heq : r' = r ∧ k = key
    · obtain ⟨rfl, rfl⟩ := heq
      rw [Contents.erase_apply, if_pos ⟨rfl, rfl, rfl⟩]
      exact .of_get?_none (by rw [get?_erase, if_pos rfl])
    · rw [Contents.erase_apply, if_neg fun ⟨_, h₁, h₂⟩ => heq ⟨h₁, h₂⟩]
      have hκ : DataKey (Keys.namespacePrefix n) ((r'.bucketIn n).entryKey k) :=
        ⟨_, k, r'.isData hr' hrc', rfl⟩
      have hne : (r'.bucketIn n).entryKey k ≠ (r.bucketIn n).entryKey key := fun he =>
        heq ((BucketRef.entryKey_bucketIn_inj hn hn hr' hr).1 he).2
      obtain ⟨hentry, hchunks⟩ := (hown n hn).erase_keeps hκ₀ hκ hne
      refine (h.reads n r' k hn hr' hrc').congr (r'.isData hr' hrc').chunked hentry ?_
      rw [BucketRef.space_bucketIn]
      exact hchunks
  · obtain ⟨v, hv⟩ := h.counters n r' hn hr'
    refine ⟨v, (counterAt_congr ?_).trans hv⟩
    rw [get?_erase, if_neg (counter_ne_entryKey hr hr' key), get?_release_of_ne (counter_ne_chunk hr')]

/-- Clearing a data bucket empties it in the contents. -/
theorem clearIn (h : t.Shows c) (hown : t.ChunksOwned) (hn : n.length ≤ Keys.maxNameLength)
    (hr : r.Fits) (hrc : r ≠ .chunks) {u : Unit}
    (hclr : (r.bucketIn n).clearIn t = .ok (u, t')) : t'.Shows (c.clearBucket n r) := by
  have hb : (r.bucketIn n).IsData (Keys.namespacePrefix n) := r.isData hr hrc
  rw [clearIn_eq hb.chunked] at hclr
  cases hclr
  rw [BucketRef.space_bucketIn]
  refine h.update hn (fun a ha => ?_) (fun n' hne => ?_) (fun r' k hr' hrc' => ?_)
    (fun r' hr' => ?_)
  · rw [get?_erasePrefix, if_neg fun hp => ha (BucketRef.namespacePrefix_prefix_keyPrefix.trans hp),
      get?_eraseAll, if_neg]
    simp only [List.mem_map, not_exists, not_and]
    exact fun x _ hx => ne_of_outside (chunk_in_namespace x) ha hx.symm
  · funext r' k
    simp [hne]
  · by_cases heq : r' = r
    · subst heq
      rw [Contents.clearBucket_apply, if_pos ⟨rfl, rfl⟩]
      refine .of_get?_none ?_
      rw [get?_erasePrefix, if_pos ((BucketRef.keyPrefix_prefix_entryKey_iff hr hr' k).2 rfl)]
    · rw [Contents.clearBucket_apply, if_neg fun ⟨_, he⟩ => heq he]
      have hκ : DataKey (Keys.namespacePrefix n) ((r'.bucketIn n).entryKey k) :=
        ⟨_, k, r'.isData hr' hrc', rfl⟩
      have hout : ¬ (r.bucketIn n).keyPrefix <+: (r'.bucketIn n).entryKey k := by
        rw [BucketRef.keyPrefix_prefix_entryKey_iff hr hr' k]
        exact fun he => heq he.symm
      obtain ⟨hentry, hchunks⟩ := (hown n hn).clear_keeps hb hκ hout
      refine (h.reads n r' k hn hr' hrc').congr (r'.isData hr' hrc').chunked hentry ?_
      rw [BucketRef.space_bucketIn]
      exact hchunks
  · by_cases heq : r' = r
    · -- the bucket's own counter goes with it, and reads as zero
      subst heq
      refine ⟨0, counterAt_of_get?_none ?_⟩
      rw [get?_erasePrefix, if_pos ((BucketRef.keyPrefix_prefix_counter_iff hr hr').2 rfl)]
    · obtain ⟨v, hv⟩ := h.counters n r' hn hr'
      refine ⟨v, (counterAt_congr ?_).trans hv⟩
      rw [get?_erasePrefix,
        if_neg fun hp => heq ((BucketRef.keyPrefix_prefix_counter_iff hr hr').1 hp).symm,
        get?_eraseAll, if_neg]
      simp only [List.mem_map, not_exists, not_and]
      exact fun x _ hx => counter_ne_chunk hr' x hx.symm

/-- Removing every key of a namespace empties it in the contents. -/
theorem erasePrefix (h : t.Shows c) (hn : n.length ≤ Keys.maxNameLength) :
    (t.erasePrefix (Keys.namespacePrefix n)).Shows (c.clearSpace n) := by
  refine h.update hn (fun a ha => by rw [get?_erasePrefix, if_neg ha]) (fun n' hne => ?_)
    (fun r k _ _ => ?_) (fun r _ => ⟨0, counterAt_of_get?_none ?_⟩)
  · funext r k
    simp [hne]
  · rw [Contents.clearSpace_apply, if_pos rfl]
    refine .of_get?_none ?_
    rw [get?_erasePrefix, if_pos (by simpa using space_prefix_entryKey (r.bucketIn n) k)]
  · rw [get?_erasePrefix, if_pos (by simpa using space_prefix_counter (r.bucketIn n))]

/-- Raising a bucket's counter to a number keeps the contents. -/
theorem insert_counter (h : t.Shows c) (hn : n.length ≤ Keys.maxNameLength) (hr : r.Fits)
    (i : UInt64) : (t.insert (r.bucketIn n).counter (Keys.sequence i)).Shows c := by
  refine h.update hn (fun a ha => ?_) (fun _ _ => rfl) (fun r' k hr' hrc' => ?_)
    (fun r' hr' => ?_)
  · rw [get?_insert, if_neg (ne_of_outside (by simpa using space_prefix_counter (r.bucketIn n)) ha)]
  · refine (h.reads n r' k hn hr' hrc').congr (r'.isData hr' hrc').chunked ?_ fun x _ => ?_
    · rw [get?_insert, if_neg (counter_ne_entryKey hr' hr k).symm]
    · rw [BucketRef.space_bucketIn, get?_insert, if_neg (counter_ne_chunk hr x).symm]
  · by_cases heq : (r'.bucketIn n).counter = (r.bucketIn n).counter
    · rw [heq]
      exact ⟨i, by simp [counterAt, Keys.readSequence_sequence]⟩
    · obtain ⟨v, hv⟩ := h.counters n r' hn hr'
      exact ⟨v, (counterAt_congr (by rw [get?_insert, if_neg heq])).trans hv⟩

/-- Appending a value to a data bucket puts it into the contents under the key handed out. -/
theorem appendIn (h : t.Shows c) (hown : t.ChunksOwned) (hn : n.length ≤ Keys.maxNameLength)
    (hr : r.Fits) (hrc : r ≠ .chunks) (hv : info = none ∨ value.length < Nat.pow 2 64)
    {k : Bytes} (happ : (r.bucketIn n).appendIn value info t = .ok (k, t')) :
    t'.Shows (c.put n r k value info) := by
  obtain ⟨i, -, -, -, hput⟩ := appendIn_eq_ok happ
  exact (h.insert_counter hn hr (i + 1)).putIn (hown.insert_counter (r.isData hr hrc) hn _) hn
    hr hrc hv hput

/-- Adding a namespace name to the stored list keeps the contents: the list lies outside every
namespace. -/
theorem addIn_namespaceList (h : t.Shows c) {name : Bytes} {added : Bool}
    (hadd : NameList.addIn Keys.namespaceList name t = .ok (added, t')) : t'.Shows c := by
  rcases NameList.addIn_eq_ok hadd with rfl | ⟨v, rfl⟩
  · exact h
  · refine h.congr fun n a _ ha => ?_
    rw [get?_insert, if_neg fun (heq : a = Keys.namespaceList) =>
      Keys.not_namespacePrefix_prefix_namespaceList n (heq ▸ ha)]

/-- Adding a bucket name to a namespace's stored list keeps the contents: the list is no
entry and no counter. -/
theorem addIn_bucketList (h : t.Shows c) (hn : n.length ≤ Keys.maxNameLength) {name : Bytes}
    {added : Bool}
    (hadd : NameList.addIn (Keys.bucketList (Keys.namespacePrefix n)) name t = .ok (added, t')) :
    t'.Shows c := by
  rcases NameList.addIn_eq_ok hadd with rfl | ⟨v, rfl⟩
  · exact h
  · -- every key a bucket reads is a bucket prefix followed by more bytes
    have hne : ∀ (r : BucketRef) x, Keys.bucketPrefix (r.bucketIn n).space (r.bucketIn n).kind
        (r.bucketIn n).name ++ x ≠ Keys.bucketList (Keys.namespacePrefix n) := fun r x => by
      rw [BucketRef.space_bucketIn]
      exact bucketPrefix_ne_bucketList
    have hlist : Keys.namespacePrefix n <+: Keys.bucketList (Keys.namespacePrefix n) := ⟨_, rfl⟩
    refine h.update hn (fun a ha => ?_) (fun _ _ => rfl) (fun r k hr hrc => ?_) (fun r _ => ?_)
    · rw [get?_insert, if_neg (ne_of_outside hlist ha)]
    · refine (h.reads n r k hn hr hrc).congr (r.isData hr hrc).chunked ?_ fun x _ => ?_
      · rw [get?_insert, if_neg (by rw [entryKey_eq]; exact hne r _)]
      · rw [BucketRef.space_bucketIn, get?_insert,
          if_neg (by rw [entryKey_eq]; exact hne .chunks _)]
    · obtain ⟨v', hv'⟩ := h.counters n r hn ‹_›
      exact ⟨v', (counterAt_congr (by rw [get?_insert, if_neg (by rw [counter_eq]; exact hne r _)])).trans hv'⟩

/-- Storing objects one after another in a namespace's object bucket puts them into the
contents in order, and keeps the chunks owned. -/
theorem forIn_putIn (h : t.Shows c) (hown : t.ChunksOwned) (hn : n.length ≤ Keys.maxNameLength)
    {objs : List Resource} (hfit : ∀ o ∈ objs, o.data.length < Nat.pow 2 64) {u : PUnit}
    (hloop : (forIn objs PUnit.unit fun o _ => do
        (Bucket.objects (Keys.namespacePrefix n)).putIn o.key o.data o.info
        pure (ForInStep.yield PUnit.unit) : Txn PUnit) t = .ok (u, t')) :
    t'.Shows (c.putObjects n objs) ∧ t'.ChunksOwned := by
  induction objs generalizing t c with
  | nil =>
    cases hloop
    exact ⟨h, hown⟩
  | cons o os ih =>
    rw [List.forIn_cons] at hloop
    obtain ⟨step, t₁, hbody, hrest⟩ := bind_run_eq_ok.1 hloop
    obtain ⟨_, t₂, hput, hpure⟩ := bind_run_eq_ok.1 hbody
    simp only [Txn.pure_run, Except.ok.injEq, Prod.mk.injEq] at hpure
    obtain ⟨rfl, rfl⟩ := hpure
    have hput' : (BucketRef.objects.bucketIn n).putIn o.key o.data o.info t = .ok ((), _) := hput
    exact ih (h.putIn hown hn trivial (by decide) (.inr (hfit o List.mem_cons_self)) hput')
      (hown.putIn (.inr (.inl rfl)) hn hput) (fun o' ho' => hfit o' (List.mem_cons_of_mem _ ho'))
      hrest

end Table.Shows

end ArchiveStore
