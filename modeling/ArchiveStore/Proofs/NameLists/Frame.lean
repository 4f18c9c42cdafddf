import ArchiveStore.Proofs.Ownership.Stores
/-!
# Writes that leave the name lists alone

The stored name lists sit under keys of their own: the namespace list outside every namespace,
and each namespace's bucket list at `02 "buckets"` under the namespace's prefix, where no
bucket's prefix (kind byte `00` or `01`) reaches. A write through a bucket touches only keys
under bucket prefixes of its namespace, so it never touches a name list.

`Txn.Keeps x k` says a transaction leaves the record under `k` as it was, whenever it
succeeds. It is built up from the steps of a transaction (`Txn.Keeps.bind`, `Txn.Keeps.forIn`,
`Txn.Keeps.mapM`, one lemma per primitive), and then proved of every write of a bucket for
every key outside the buckets of its namespace (`Keys.OutsideBuckets`). Every name-list key of
a namespace whose name can be keyed is such a key (`Keys.NameListKey.outsideBuckets`).

`Database.KeepsLists db db'` collects what the writes of an open store keep: the registrations,
whether it is read-only, and every name-list record; each write of `Database` keeps them.
-/

namespace ArchiveStore

namespace Txn

/-- A transaction keeps a key when, whenever it succeeds, the record under the key is as it
was. -/
def Keeps {α : Type} (x : Txn α) (k : Bytes) : Prop :=
  ∀ t a t', x t = .ok (a, t') → t'.get? k = t.get? k

namespace Keeps

variable {α β : Type} {k : Bytes}

theorem pure (a : α) : (Pure.pure a : Txn α).Keeps k := by
  intro t b t' h
  obtain ⟨-, rfl⟩ := Prod.mk.inj (Except.ok.inj h)
  rfl

theorem bind {x : Txn α} {f : α → Txn β} (hx : x.Keeps k) (hf : ∀ a, (f a).Keeps k) :
    (x >>= f).Keeps k := by
  intro t b t' h
  obtain ⟨a, t₁, h₁, h₂⟩ := bind_run_eq_ok.1 h
  rw [hf a t₁ b t' h₂, hx t a t₁ h₁]

/-- A step after a lifted result needs to keep the key only for the result there is. -/
theorem bind_ofExcept {r : Except StoreError α} {f : α → Txn β}
    (hf : ∀ a, r = .ok a → (f a).Keeps k) : (Txn.ofExcept r >>= f).Keeps k := by
  intro t b t' h
  obtain ⟨a, t₁, h₁, h₂⟩ := bind_run_eq_ok.1 h
  obtain ⟨hr, ht⟩ := Txn.ofExcept_eq_ok.1 h₁
  rw [hf a hr t₁ b t' h₂, ht]

theorem ofExcept (r : Except StoreError α) : (Txn.ofExcept r).Keeps k := by
  intro t a t' h
  rw [(Txn.ofExcept_eq_ok.1 h).2]

theorem get? (k' : Bytes) : (Txn.get? k').Keeps k := by
  intro t a t' h
  obtain ⟨-, rfl⟩ := Prod.mk.inj (Except.ok.inj h)
  rfl

theorem scan (p : Bytes) : (Txn.scan p).Keeps k := by
  intro t a t' h
  obtain ⟨-, rfl⟩ := Prod.mk.inj (Except.ok.inj h)
  rfl

theorem set {k' v : Bytes} (hne : k' ≠ k) : (Txn.set k' v).Keeps k := by
  intro t a t' h
  obtain ⟨-, rfl⟩ := Prod.mk.inj (Except.ok.inj h)
  rw [Table.get?_insert, if_neg (Ne.symm hne)]

theorem delete {k' : Bytes} (hne : k' ≠ k) : (Txn.delete k').Keeps k := by
  intro t a t' h
  obtain ⟨-, rfl⟩ := Prod.mk.inj (Except.ok.inj h)
  rw [Table.get?_erase, if_neg (Ne.symm hne)]

theorem deletePrefix {p : Bytes} (hp : ¬ p <+: k) : (Txn.deletePrefix p).Keeps k := by
  intro t a t' h
  obtain ⟨-, rfl⟩ := Prod.mk.inj (Except.ok.inj h)
  rw [Table.get?_erasePrefix, if_neg hp]

theorem nextSequence {key : Bytes} (hne : key ≠ k) : (Txn.nextSequence key).Keeps k := by
  intro t a t' h
  obtain ⟨-, -, rfl⟩ := Txn.nextSequence_eq_ok.1 h
  rw [Table.get?_insert, if_neg (Ne.symm hne)]

/-- A loop keeps a key when every pass does. -/
theorem forIn {xs : List α} {init : β} {f : α → β → Txn (ForInStep β)}
    (hf : ∀ a b, (f a b).Keeps k) : (forIn xs init f).Keeps k := by
  induction xs generalizing init with
  | nil => exact pure init
  | cons x xs ih =>
    rw [List.forIn_cons]
    refine bind (hf x init) fun step => ?_
    cases step with
    | done b => exact pure b
    | yield b => exact ih

theorem mapM {xs : List α} {f : α → Txn β} (hf : ∀ a, (f a).Keeps k) : (xs.mapM f).Keeps k := by
  induction xs with
  | nil => exact pure []
  | cons x xs ih =>
    rw [List.mapM_cons]
    exact bind (hf x) fun _ => bind ih fun _ => pure _

end Keeps

end Txn

namespace Keys

/-- A key that lies in no bucket of a namespace: it extends no bucket prefix of it. -/
def OutsideBuckets (sp k : Bytes) : Prop :=
  ∀ kind name x, bucketPrefix sp kind name ++ x ≠ k

/-- The key of a stored name list: the namespace list, or the bucket list of a namespace whose
name can be keyed. -/
def NameListKey (k : Bytes) : Prop :=
  k = namespaceList ∨ ∃ m : Bytes, m.length ≤ maxNameLength ∧ k = bucketList (namespacePrefix m)

/-- No bucket of a namespace whose name can be keyed reaches a name list: the namespace list
lies outside every namespace, and a bucket list under a namespace's prefix is told from its
buckets by the byte after the prefix. -/
theorem NameListKey.outsideBuckets {n k : Bytes} (hn : n.length ≤ maxNameLength)
    (hk : NameListKey k) : OutsideBuckets (namespacePrefix n) k := by
  intro kind name x heq
  rcases hk with rfl | ⟨m, hm, rfl⟩
  · simp [bucketPrefix, namespacePrefix, namespaceList] at heq
  · -- the two prefixes name the same namespace, and then the kind byte is 2
    rw [bucketPrefix, bucketList, List.append_assoc, List.cons_append,
      namespacePrefix_append_inj hn hm] at heq
    have htag := (List.cons.inj heq.2).1
    cases kind <;> simp [BucketKind.tag] at htag

end Keys

namespace Bucket

open Txn

variable {k : Bytes}

/-- A bucket's chunk store, when it has one, is its namespace's chunk bucket. -/
theorem chunkStore_eq_ok {b store : Bucket} (h : b.chunkStore = .ok store) :
    store = chunks b.space := by
  unfold chunkStore at h
  split at h
  · exact (Except.ok.inj h).symm
  · cases h

section Outside

variable {b : Bucket} (hk : Keys.OutsideBuckets b.space k)
include hk

theorem entryKey_ne_outside (key : Bytes) : b.entryKey key ≠ k := by
  rw [entryKey_eq]
  exact hk _ _ _

theorem counter_ne_outside : b.counter ≠ k := by
  rw [counter_eq]
  exact hk _ _ _

theorem chunk_ne_outside (x : Bytes) : (chunks b.space).entryKey x ≠ k := by
  rw [entryKey_eq]
  exact hk _ _ _

theorem not_keyPrefix_outside : ¬ b.keyPrefix <+: k := by
  rintro ⟨x, hx⟩
  exact hk _ _ _ hx

/-- Releasing an entry's chunks deletes chunk entries of the namespace only. -/
theorem releaseChunks_keeps (κ : Bytes) : (b.releaseChunks κ).Keeps k := by
  unfold releaseChunks
  refine Keeps.bind (Keeps.get? κ) fun record => ?_
  cases record with
  | none => exact Keeps.pure ()
  | some r =>
    dsimp only
    split
    · exact Keeps.pure ()
    · refine Keeps.bind_ofExcept fun store hstore => ?_
      obtain rfl := chunkStore_eq_ok hstore
      exact Keeps.bind (Keeps.forIn fun x _ =>
        Keeps.bind (Keeps.delete (chunk_ne_outside hk x)) fun _ => Keeps.pure _) fun _ =>
        Keeps.pure ()

theorem putPlainIn_keeps (key value : Bytes) : (b.putPlainIn key value).Keeps k :=
  Keeps.bind (releaseChunks_keeps hk _) fun _ => Keeps.set (entryKey_ne_outside hk key)

theorem appendPlainIn_keeps (value : Bytes) : (b.appendPlainIn value).Keeps k :=
  Keeps.bind (Keeps.nextSequence (counter_ne_outside hk)) fun _ =>
    Keeps.bind (putPlainIn_keeps hk _ _) fun _ => Keeps.pure _

/-- Building a record with a meta appends the pieces of a split value to the namespace's chunk
bucket, and writes nothing else. -/
theorem metaRecordIn_keeps (value : Bytes) (m : Meta) : (b.metaRecordIn value m).Keeps k := by
  unfold metaRecordIn
  refine Keeps.bind (Keeps.ofExcept _) fun split => ?_
  cases split with
  | none => exact Keeps.ofExcept _
  | some size =>
    dsimp only
    split
    · refine Keeps.bind_ofExcept fun store hstore => ?_
      obtain rfl := chunkStore_eq_ok hstore
      -- the chunk bucket lies in the same namespace
      exact Keeps.bind (Keeps.mapM fun _ => appendPlainIn_keeps (b := chunks b.space) hk _)
        fun _ => Keeps.ofExcept _
    · exact Keeps.ofExcept _

theorem putIn_keeps (key value : Bytes) (info : Option Meta) : (b.putIn key value info).Keeps k := by
  cases info with
  | none => exact putPlainIn_keeps hk key value
  | some m =>
    exact Keeps.bind (metaRecordIn_keeps hk value m) fun _ =>
      Keeps.bind (releaseChunks_keeps hk _) fun _ => Keeps.set (entryKey_ne_outside hk key)

theorem appendIn_keeps (value : Bytes) (info : Option Meta) : (b.appendIn value info).Keeps k :=
  Keeps.bind (Keeps.nextSequence (counter_ne_outside hk)) fun _ =>
    Keeps.bind (putIn_keeps hk _ _ _) fun _ => Keeps.pure _

theorem deleteIn_keeps (key : Bytes) : (b.deleteIn key).Keeps k :=
  Keeps.bind (releaseChunks_keeps hk _) fun _ => Keeps.delete (entryKey_ne_outside hk key)

/-- Clearing a bucket deletes the chunks its entries list and the keys under its prefix. -/
theorem clearIn_keeps : b.clearIn.Keeps k := by
  unfold clearIn
  dsimp only
  split
  · refine Keeps.bind (Keeps.scan _) fun _ => Keeps.bind (Keeps.forIn fun e _ => ?_) fun _ =>
      Keeps.deletePrefix (not_keyPrefix_outside hk)
    obtain ⟨-, record⟩ := e
    exact Keeps.bind (Keeps.forIn fun x _ =>
      Keeps.bind (Keeps.delete (chunk_ne_outside hk x)) fun _ => Keeps.pure _) fun _ =>
      Keeps.pure _
  · exact Keeps.deletePrefix (not_keyPrefix_outside hk)

end Outside

end Bucket

namespace Database

/-- What a write of an open store keeps: its registrations, whether it is read-only, and every
name-list record. -/
structure KeepsLists (db db' : Database) : Prop where
  spaces : db'.spaces = db.spaces
  nextHandle : db'.nextHandle = db.nextHandle
  readOnly : db'.readOnly = db.readOnly
  lists : ∀ k, Keys.NameListKey k → db'.table.get? k = db.table.get? k

variable {α : Type} {db db' : Database} {txn : Txn α} {a : α}

/-- A transaction that keeps every name-list key keeps them in the store it writes. -/
theorem update_keepsLists (hu : db.update txn = .ok (a, db'))
    (htx : ∀ k, Keys.NameListKey k → txn.Keeps k) : db.KeepsLists db' := by
  obtain ⟨-, t', ht, rfl⟩ := update_eq_ok.1 hu
  exact ⟨rfl, rfl, rfl, fun k hk => htx k hk db.table a t' ht⟩

section Writes

variable {n : Bytes} (hn : n.length ≤ Keys.maxNameLength) {b : Bucket}
  (hb : b.space = Keys.namespacePrefix n)
include hn hb

/-- Every name-list key lies outside the buckets of a namespace whose name can be keyed. -/
theorem outside_of_nameListKey {k : Bytes} (hk : Keys.NameListKey k) :
    Keys.OutsideBuckets b.space k :=
  hb ▸ hk.outsideBuckets hn

theorem put_keepsLists {key value : Bytes} {info : Option Meta}
    (h : db.put b key value info = .ok db') : db.KeepsLists db' := by
  obtain ⟨u, hu⟩ := put_eq_ok h
  exact update_keepsLists hu fun _ hk => Bucket.putIn_keeps (outside_of_nameListKey hn hb hk) _ _ _

theorem putValue_keepsLists {value key : Bytes} {info : Option Meta}
    (h : db.putValue b value info = .ok (key, db')) : db.KeepsLists db' :=
  update_keepsLists h fun _ hk => Bucket.appendIn_keeps (outside_of_nameListKey hn hb hk) _ _

theorem delete_keepsLists {key : Bytes} (h : db.delete b key = .ok db') : db.KeepsLists db' := by
  obtain ⟨found, hu⟩ := delete_eq_ok h
  exact update_keepsLists hu fun _ hk => Bucket.deleteIn_keeps (outside_of_nameListKey hn hb hk) _

theorem putDocument_keepsLists {key : Bytes} {doc : Document}
    (h : db.putDocument b key doc = .ok db') : db.KeepsLists db' := by
  obtain ⟨encoded, -, h⟩ := putDocument_eq_ok h
  exact put_keepsLists hn hb h

end Writes

/-- The combined write stores into the object and document buckets of one namespace only. -/
theorem putDocumentWithObjects_keepsLists {space key : Bytes} {doc : Document}
    {objects : List Resource} (hn : space.length ≤ Keys.maxNameLength)
    (h : db.putDocumentWithObjects space key doc objects = .ok db') : db.KeepsLists db' := by
  obtain ⟨⟨u, db₁⟩, hu, hret⟩ := Except.bind_eq_ok.1 h
  cases hret
  refine update_keepsLists hu fun _ hk => ?_
  have hout := hk.outsideBuckets hn
  exact Txn.Keeps.bind (Txn.Keeps.forIn fun o _ =>
      Txn.Keeps.bind (Bucket.putIn_keeps (b := Bucket.objects _) hout _ _ _) fun _ =>
        Txn.Keeps.pure _) fun _ =>
    Txn.Keeps.bind (Txn.Keeps.ofExcept _) fun _ =>
      Bucket.putIn_keeps (b := Bucket.documents _) hout _ _ _

/-- Clearing a registered user bucket keeps the name lists: its name stays stored. -/
theorem deleteBucket_keepsLists {space name : Bytes} (hn : space.length ≤ Keys.maxNameLength)
    (h : db.deleteBucket space name = .ok db') : db.KeepsLists db' := by
  obtain ⟨-, -, u, -, -, -, hu⟩ := deleteBucket_eq_ok h
  exact update_keepsLists hu fun k hk =>
    Bucket.clearIn_keeps (b := Bucket.user _ name) (hk.outsideBuckets hn)

end Database

end ArchiveStore
