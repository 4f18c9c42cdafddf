import ArchiveStore.Proofs.Contents.Reads
import ArchiveStore.Proofs.Ownership.Writes
/-!
# A table that shows contents

`Table.Shows c t` says that the table `t` shows the contents `c`: in every namespace whose
name can be keyed, every entry of every data bucket reads as `c` says (`ReadsAs`), and every
counter reads as a number, so that handing out a number fails only when the counter is
exhausted.

A write of a bucket touches one namespace, and inside it one entry, the chunks that entry
lists, fresh chunks and counters. Because the chunks of a namespace are owned by its data
entries (`OwnedChunks`), the chunks another entry lists are neither released nor
overwritten, so its read does not change:

* `OwnedChunks.store_keeps`, `OwnedChunks.erase_keeps`, `OwnedChunks.clear_keeps`: a store,
  a delete and the clearing of a bucket keep every other data entry and its chunks;
* `ReadsAs.stored`: the entry a store writes reads back as the value and meta stored;
* `Table.Shows.update`: a change inside one namespace leaves every other namespace showing
  what it showed, since names of at most 255 bytes keep namespaces' keys apart.
-/

namespace ArchiveStore

open Bucket

/-! ## The buckets a reference names -/

namespace BucketRef

variable {r r' : BucketRef} {n n' : Bytes}

@[simp] theorem space_bucketIn : (r.bucketIn n).space = Keys.namespacePrefix n := by
  cases r <;> rfl

@[simp] theorem chunks_bucketIn :
    BucketRef.chunks.bucketIn n = Bucket.chunks (Keys.namespacePrefix n) :=
  rfl

/-- A reference that fits names a bucket whose name can be keyed. -/
theorem name_le (hr : r.Fits) : (r.bucketIn n).name.length ≤ Keys.maxNameLength := by
  cases r with
  | user name => exact hr
  | chunks => exact chunks_name_le _
  | documents => exact IsData.name_le (b := Bucket.documents (Keys.namespacePrefix n)) (.inl rfl)
  | objects => exact IsData.name_le (b := Bucket.objects (Keys.namespacePrefix n)) (.inr (.inl rfl))

/-- A reference to a bucket other than the chunks names a data bucket. -/
theorem isData (hr : r.Fits) (hc : r ≠ .chunks) : (r.bucketIn n).IsData (Keys.namespacePrefix n) := by
  cases r with
  | documents => exact .inl rfl
  | objects => exact .inr (.inl rfl)
  | chunks => exact absurd rfl hc
  | user name => exact .inr (.inr ⟨name, hr, rfl⟩)

/-- The kind and name of the bucket a reference names tell the reference. -/
theorem eq_of_bucketIn (hk : (r.bucketIn n).kind = (r'.bucketIn n').kind)
    (hname : (r.bucketIn n).name = (r'.bucketIn n').name) : r = r' := by
  -- the three builtin buckets have three names
  have hdo : Keys.documentBucket ≠ Keys.objectBucket := by decide
  have hdt : Keys.documentBucket ≠ Keys.chunkBucket := by decide
  have hot : Keys.objectBucket ≠ Keys.chunkBucket := by decide
  cases r <;> cases r' <;>
    simp_all [bucketIn, Bucket.documents, Bucket.objects, Bucket.chunks, Bucket.user, eq_comm]

/-- Two entries of data buckets of namespaces with keyable names are the same key only when
namespace, bucket and caller's key all agree. -/
theorem entryKey_bucketIn_inj (hn : n.length ≤ Keys.maxNameLength)
    (hn' : n'.length ≤ Keys.maxNameLength) (hr : r.Fits) (hr' : r'.Fits) {k k' : Bytes} :
    (r.bucketIn n).entryKey k = (r'.bucketIn n').entryKey k' ↔ n = n' ∧ r = r' ∧ k = k' := by
  constructor
  · intro heq
    have hsp : n = n' := Keys.eq_of_namespacePrefix_prefix hn hn'
      (space_bucketIn (r := r) ▸ space_prefix_entryKey (r.bucketIn n) k)
      (heq ▸ space_bucketIn (r := r') ▸ space_prefix_entryKey (r'.bucketIn n') k')
    subst hsp
    obtain ⟨hk, hname, hkey⟩ := (entryKey_inj (by simp) (name_le hr) (name_le hr')).1 heq
    exact ⟨rfl, eq_of_bucketIn hk hname, hkey⟩
  · rintro ⟨rfl, rfl, rfl⟩
    rfl

/-- In one namespace, the prefix of the bucket a reference names starts exactly the keys of that
bucket. -/
theorem keyPrefix_prefix_bucketIn_iff (hr : r.Fits) (hr' : r'.Fits) (x : Bytes) :
    (r.bucketIn n).keyPrefix <+:
      Keys.bucketPrefix (r'.bucketIn n).space (r'.bucketIn n).kind (r'.bucketIn n).name ++ x ↔
        r = r' := by
  rw [keyPrefix_prefix_iff (by simp) (name_le hr) (name_le hr')]
  exact ⟨fun ⟨hk, hname⟩ => eq_of_bucketIn hk hname, fun he => he ▸ ⟨rfl, rfl⟩⟩

theorem keyPrefix_prefix_entryKey_iff (hr : r.Fits) (hr' : r'.Fits) (k : Bytes) :
    (r.bucketIn n).keyPrefix <+: (r'.bucketIn n).entryKey k ↔ r = r' := by
  rw [entryKey_eq]
  exact keyPrefix_prefix_bucketIn_iff hr hr' _

theorem keyPrefix_prefix_counter_iff (hr : r.Fits) (hr' : r'.Fits) :
    (r.bucketIn n).keyPrefix <+: (r'.bucketIn n).counter ↔ r = r' :=
  keyPrefix_prefix_bucketIn_iff hr hr' _

/-- The prefix of the bucket a reference names lies in its namespace. -/
theorem namespacePrefix_prefix_keyPrefix :
    Keys.namespacePrefix n <+: (r.bucketIn n).keyPrefix := by
  have hsp := space_prefix_keyPrefix (r.bucketIn n) (x := [])
  unfold Bucket.keyPrefix
  rw [List.append_nil] at hsp
  rw [space_bucketIn] at hsp ⊢
  exact hsp

end BucketRef

/-! ## What a write keeps of the other entries -/

namespace Table

variable {t : Table} {s : Bucket} {κ x : Bytes}

/-- Releasing the chunks of one record keeps every chunk it does not list. -/
theorem get?_release_entry_of_not_mem (hx : x ∉ t.refsAt κ) :
    (t.release s κ).get? (s.entryKey x) = t.get? (s.entryKey x) := by
  unfold release
  rw [get?_eraseAll, if_neg]
  simpa [entryKey_right_inj] using hx

end Table

namespace OwnedChunks

variable {sp κ κ₀ v : Bytes} {t : Table} {c : UInt64} {ps : List Bytes}

open Table

/-- The chunks a data entry lists lie below the chunk counter: none of them is among the keys
handed out from the counter's number on. -/
theorem not_mem_chunkKeys (h : OwnedChunks sp t) (hκ : DataKey sp κ) {x : Bytes}
    (hx : x ∈ t.refsAt κ) (hc : t.counterAt (chunks sp).counter = .ok c)
    (hfit : c.toNat + ps.length ≤ Nat.pow 2 64) : x ∉ chunkKeys c ps.length := by
  intro hmem
  obtain ⟨i, v, rfl, hv, hlt⟩ := h.below κ x hκ hx
  rw [hc, Except.ok.injEq] at hv
  subst hv
  obtain ⟨j, hj, hlo, -⟩ := mem_chunkKeys hfit hmem
  rw [Keys.sequence_inj] at hj
  subst hj
  omega

/-- A chunk a data entry lists is not handed out by a run from the chunk counter. -/
theorem not_mem_run (h : OwnedChunks sp t) (hκ : DataKey sp κ) {x : Bytes}
    (hx : x ∈ t.refsAt κ)
    (hrun : ps = [] ∨ t.counterAt (chunks sp).counter = .ok c ∧
      c.toNat + ps.length < Nat.pow 2 64) : x ∉ chunkKeys c ps.length := by
  rcases hrun with rfl | ⟨hc, hfit⟩
  · exact List.not_mem_nil
  · exact h.not_mem_chunkKeys hκ hx hc (by omega)

/-- A store into one data entry keeps every other data entry's record and the records of the
chunks it lists: they are no keys of the run appended, and the released chunks are the stored
entry's own. -/
theorem store_keeps (h : OwnedChunks sp t) (hκ₀ : DataKey sp κ₀) (hκ : DataKey sp κ)
    (hne : κ ≠ κ₀)
    (hrun : ps = [] ∨ t.counterAt (chunks sp).counter = .ok c ∧
      c.toNat + ps.length < Nat.pow 2 64) :
    (((t.appendPlain (chunks sp) c ps).release (chunks sp) κ₀).insert κ₀ v).get? κ =
        t.get? κ ∧
      ∀ x ∈ t.refsAt κ, (((t.appendPlain (chunks sp) c ps).release (chunks sp) κ₀).insert κ₀
        v).get? ((chunks sp).entryKey x) = t.get? ((chunks sp).entryKey x) := by
  have hrefs₀ : (t.appendPlain (chunks sp) c ps).refsAt κ₀ = t.refsAt κ₀ :=
    refsAt_congr (get?_appendPlain_of_ne hκ₀.ne_chunkCounter fun k _ => hκ₀.ne_chunk k)
  refine ⟨?_, fun x hx => ?_⟩
  · rw [get?_insert, if_neg hne, get?_release_of_ne hκ.ne_chunk,
      get?_appendPlain_of_ne hκ.ne_chunkCounter fun k _ => hκ.ne_chunk k]
  · -- by ownership, the stored entry does not list this chunk
    have hnot : x ∉ t.refsAt κ₀ := fun hx₀ => hne (h.unique κ κ₀ x hκ hκ₀ hx hx₀)
    have hfresh := h.not_mem_run hκ hx hrun
    rw [get?_insert, if_neg (Ne.symm (hκ₀.ne_chunk x)),
      get?_release_entry_of_not_mem (hrefs₀ ▸ hnot),
      get?_appendPlain_of_ne (entryKey_ne_own_counter _ x)
        fun k hk heq => hfresh ((entryKey_right_inj _).1 heq ▸ hk)]

/-- Deleting one data entry keeps every other data entry's record and the records of the
chunks it lists. -/
theorem erase_keeps (h : OwnedChunks sp t) (hκ₀ : DataKey sp κ₀) (hκ : DataKey sp κ)
    (hne : κ ≠ κ₀) :
    ((t.release (chunks sp) κ₀).erase κ₀).get? κ = t.get? κ ∧
      ∀ x ∈ t.refsAt κ, ((t.release (chunks sp) κ₀).erase κ₀).get? ((chunks sp).entryKey x) =
        t.get? ((chunks sp).entryKey x) := by
  refine ⟨?_, fun x hx => ?_⟩
  · rw [get?_erase, if_neg hne, get?_release_of_ne hκ.ne_chunk]
  · have hnot : x ∉ t.refsAt κ₀ := fun hx₀ => hne (h.unique κ κ₀ x hκ hκ₀ hx hx₀)
    rw [get?_erase, if_neg (Ne.symm (hκ₀.ne_chunk x)), get?_release_entry_of_not_mem hnot]

end OwnedChunks

/-! ## Tables that show contents -/

/-- A table shows contents `c`: in every namespace whose name can be keyed, every entry of
every data bucket reads as `c` says, and every counter reads as a number. -/
structure Table.Shows (c : Contents) (t : Table) : Prop where
  reads : ∀ (n : Bytes) (r : BucketRef) (k : Bytes), n.length ≤ Keys.maxNameLength → r.Fits →
    r ≠ .chunks → ReadsAs (r.bucketIn n) t k (c n r k)
  counters : ∀ (n : Bytes) (r : BucketRef), n.length ≤ Keys.maxNameLength → r.Fits →
    ∃ v, t.counterAt (r.bucketIn n).counter = .ok v

/-- A read of an entry of a data bucket looks only at keys of the bucket's namespace. -/
theorem ReadsAs.of_space {t t' : Table} {n k : Bytes} {r : BucketRef} {e : Option Entry}
    (h : ReadsAs (r.bucketIn n) t k e) (hr : r.Fits) (hc : r ≠ .chunks)
    (hsame : ∀ a, Keys.namespacePrefix n <+: a → t'.get? a = t.get? a) :
    ReadsAs (r.bucketIn n) t' k e := by
  refine h.congr (r.isData hr hc).chunked ?_ fun x _ => ?_
  · exact hsame _ (by simpa using space_prefix_entryKey (r.bucketIn n) k)
  · rw [BucketRef.space_bucketIn]
    exact hsame _ (Table.ChunksOwned.chunk_in_namespace x)

/-- A counter of a bucket lies in the bucket's namespace. -/
theorem Table.counterAt_of_space {t t' : Table} {n : Bytes} (r : BucketRef)
    (hsame : ∀ a, Keys.namespacePrefix n <+: a → t'.get? a = t.get? a) :
    t'.counterAt (r.bucketIn n).counter = t.counterAt (r.bucketIn n).counter :=
  counterAt_congr (hsame _ (by simpa using space_prefix_counter (r.bucketIn n)))

namespace Table.Shows

variable {c c' : Contents} {t t' : Table} {n : Bytes}

/-- A table that agrees on the keys of every namespace shows the same contents. -/
theorem congr (h : t.Shows c)
    (hsame : ∀ n a, n.length ≤ Keys.maxNameLength → Keys.namespacePrefix n <+: a →
      t'.get? a = t.get? a) : t'.Shows c where
  reads n r k hn hr hc := (h.reads n r k hn hr hc).of_space hr hc (hsame n · hn)
  counters n r hn hr := (counterAt_of_space r (hsame n · hn)) ▸ h.counters n r hn hr

/-- A change inside one namespace keeps every other namespace showing what it showed; the
namespace changed must show its new contents itself. -/
theorem update (h : t.Shows c) (hn : n.length ≤ Keys.maxNameLength)
    (hsame : ∀ a, ¬ Keys.namespacePrefix n <+: a → t'.get? a = t.get? a)
    (hother : ∀ n', n' ≠ n → c' n' = c n')
    (hreads : ∀ (r : BucketRef) (k : Bytes), r.Fits → r ≠ .chunks →
      ReadsAs (r.bucketIn n) t' k (c' n r k))
    (hctrs : ∀ r : BucketRef, r.Fits → ∃ v, t'.counterAt (r.bucketIn n).counter = .ok v) :
    t'.Shows c' := by
  -- a key of another namespace lies outside this one
  have houtside : ∀ n' a, n'.length ≤ Keys.maxNameLength → n' ≠ n →
      Keys.namespacePrefix n' <+: a → t'.get? a = t.get? a :=
    fun n' a hn' hne ha => hsame a fun hp => hne (Keys.eq_of_namespacePrefix_prefix hn' hn ha hp)
  constructor
  case reads =>
    intro n' r k hn' hr hc
    by_cases heq : n' = n
    · subst heq
      exact hreads r k hr hc
    · rw [hother n' heq]
      exact (h.reads n' r k hn' hr hc).of_space hr hc (houtside n' · hn' heq)
  case counters =>
    intro n' r hn' hr
    by_cases heq : n' = n
    · subst heq
      exact hctrs r hr
    · rw [counterAt_of_space r (houtside n' · hn' heq)]
      exact h.counters n' r hn' hr

end Table.Shows

end ArchiveStore
