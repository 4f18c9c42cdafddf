import ArchiveStore.Proofs.Contents.Refusals
import ArchiveStore.Proofs.NameLists.Registry
import ArchiveStore.Proofs.Session.Failures
/-!
# The writes of an open store, on the contents its table shows

Every write of an open store runs one transaction of its table (`Database.update`), so it
succeeds only on a store open for writing, which it leaves open for writing. Each write that
succeeded moves the contents the table shows by the matching operation of `Contents`
(`Database.Wrote`), given that the store's chunks are owned and its names can be keyed
(`Database.Owned`):

* `Database.wrote_put`, `wrote_putValue`, `wrote_delete`, `wrote_putDocument` and
  `wrote_putDocumentWithObjects`: the puts and the delete of `Contents`;
* `Database.wrote_deleteNamespace` and `wrote_deleteBucket`: `Contents.clearSpace` and
  `Contents.clearBucket`;
* `Database.shows_createNamespace` and `shows_createBucket`: registering names writes at most
  a stored name list, which is no entry, so the contents stay.

On a store open for writing, a put or an append of a value that fits fails only for a refused
value (`Database.put_refused`, `Database.putValue_refused`).
-/

namespace ArchiveStore

/-- A document with a stored form is put as that form. -/
theorem Contents.putDocument_of_encode {c : Contents} {space key encoded : Bytes} {doc : Document}
    (h : doc.encode = .ok encoded) :
    c.putDocument space key doc = c.put space .documents key encoded none := by
  simp [Contents.putDocument, h]

namespace Database

variable {db db' : Database} {c c' : Contents} {n key value : Bytes} {r : BucketRef}
  {info : Option Meta} {α : Type} {txn : Txn α} {a : α} {e : StoreError}

/-- `db'` is `db` after a write that succeeded and left the table showing `c`: the store was
open for writing, and stays so. -/
structure Wrote (db db' : Database) (c : Contents) : Prop where
  writable : db.readOnly = false
  stays : db'.readOnly = false
  shows : db'.table.Shows c

/-- A transaction that leads the store's table to one showing `c'` moves the store's contents
to `c'`. -/
theorem wrote_update (hu : db.update txn = .ok (a, db'))
    (htx : ∀ t', txn db.table = .ok (a, t') → t'.Shows c') : db.Wrote db' c' := by
  obtain ⟨hro, t', ht, rfl⟩ := update_eq_ok.1 hu
  exact ⟨hro, hro, htx t' ht⟩

/-- On a store open for writing, a write fails exactly when its transaction does. -/
theorem update_eq_error (hro : db.readOnly = false) :
    db.update txn = .error e ↔ txn db.table = .error e := by
  unfold update
  rw [if_neg (by simp [hro])]
  change (do let x ← txn db.table; pure (x.1, { db with table := x.2 })) = _ ↔ _
  cases txn db.table with
  | error e' => simp [bind, Except.bind]
  | ok p => simp [bind, Except.bind, pure, Except.pure]

section Writes

variable (h : db.table.Shows c) (hown : db.Owned)
include h hown

theorem wrote_put (hn : n.length ≤ Keys.maxNameLength) (hr : r.Fits) (hrc : r ≠ .chunks)
    (hv : info = none ∨ value.length < Nat.pow 2 64)
    (hp : db.put (r.bucketIn n) key value info = .ok db') :
    db.Wrote db' (c.put n r key value info) := by
  obtain ⟨u, hu⟩ := put_eq_ok hp
  exact wrote_update hu fun _ ht => h.putIn hown.table hn hr hrc hv ht

theorem wrote_putValue (hn : n.length ≤ Keys.maxNameLength) (hr : r.Fits) (hrc : r ≠ .chunks)
    (hv : info = none ∨ value.length < Nat.pow 2 64)
    (hp : db.putValue (r.bucketIn n) value info = .ok (key, db')) :
    db.Wrote db' (c.put n r key value info) :=
  wrote_update hp fun _ ht => h.appendIn hown.table hn hr hrc hv ht

theorem wrote_delete (hn : n.length ≤ Keys.maxNameLength) (hr : r.Fits) (hrc : r ≠ .chunks)
    (hd : db.delete (r.bucketIn n) key = .ok db') : db.Wrote db' (c.erase n r key) := by
  obtain ⟨found, hu⟩ := delete_eq_ok hd
  exact wrote_update hu fun _ ht => h.deleteIn hown.table hn hr hrc ht

theorem wrote_putDocument (hn : n.length ≤ Keys.maxNameLength) {doc : Document}
    (hp : db.putDocument (BucketRef.documents.bucketIn n) key doc = .ok db') :
    db.Wrote db' (c.putDocument n key doc) := by
  obtain ⟨encoded, henc, hp⟩ := putDocument_eq_ok hp
  rw [Contents.putDocument_of_encode henc]
  exact wrote_put h hown hn trivial (fun hc => by cases hc) (.inl rfl) hp

/-- The combined write puts the objects one after another, then the document. -/
theorem wrote_putDocumentWithObjects (hn : n.length ≤ Keys.maxNameLength) {doc : Document}
    {objects : List Resource} (hfit : ∀ o ∈ objects, o.data.length < Nat.pow 2 64)
    (hp : db.putDocumentWithObjects n key doc objects = .ok db') :
    db.Wrote db' ((c.putObjects n objects).putDocument n key doc) := by
  obtain ⟨hro, t₁, encoded, u, t', hloop, henc, hdoc, rfl⟩ := putDocumentWithObjects_eq_ok hp
  obtain ⟨h₁, hown₁⟩ := h.forIn_putIn hown.table hn hfit hloop
  rw [Contents.putDocument_of_encode henc]
  exact ⟨hro, hro, h₁.putIn hown₁ hn trivial (fun hc => by cases hc) (.inl rfl) hdoc⟩

/-- Clearing a registered user bucket empties it in the contents. -/
theorem wrote_deleteBucket {name : Bytes} (hd : db.deleteBucket n name = .ok db') :
    db.Wrote db' (c.clearBucket n (.user name)) := by
  obtain ⟨s, hb, u, hmem, hsn, hbmem, hu⟩ := deleteBucket_eq_ok hd
  -- a registered bucket has a name that can be keyed
  have hname : name.length ≤ Keys.maxNameLength := hown.buckets s hmem (name, hb) hbmem
  exact wrote_update hu fun _ ht =>
    h.clearIn (r := .user name) hown.table (hsn ▸ hown.spaces s hmem) hname
      (fun hc => by cases hc) ht

/-- Registering a namespace writes at most the stored namespace list. -/
theorem shows_createNamespace {name : Bytes} {hd : Nat}
    (hcr : db.createNamespace name = .ok (hd, db')) : db'.table.Shows c := by
  rcases (createNamespace_eq_ok hcr).2 with ⟨-, -, -, rfl⟩ | ⟨-, -, t, ht, rfl⟩
  · exact h
  · rcases ht with ⟨-, rfl⟩ | ⟨-, added, hadd⟩
    · exact h
    · exact h.addIn_namespaceList hadd

/-- Registering a user bucket writes at most its namespace's stored bucket list. -/
theorem shows_createBucket {space name : Bytes} {hd : Nat}
    (hcr : db.createBucket space name = .ok (hd, db')) : db'.table.Shows c := by
  obtain ⟨-, sp, hsp, hcases⟩ := createBucket_eq_ok hcr
  rcases hcases with ⟨-, rfl⟩ | ⟨-, -, t, ht, rfl⟩
  · exact h
  · rcases ht with ⟨-, rfl⟩ | ⟨-, added, hadd⟩
    · exact h
    · obtain ⟨hmem, hname⟩ := space?_eq_some hsp
      exact h.addIn_bucketList (hname ▸ hown.spaces sp hmem) hadd

end Writes

/-- Registering a namespace keeps the store open as it was. -/
theorem createNamespace_readOnly {name : Bytes} {hd : Nat}
    (hcr : db.createNamespace name = .ok (hd, db')) : db'.readOnly = db.readOnly := by
  rcases (createNamespace_eq_ok hcr).2 with ⟨-, -, -, rfl⟩ | ⟨-, -, t, -, rfl⟩ <;> rfl

/-- Registering a user bucket keeps the store open as it was. -/
theorem createBucket_readOnly {space name : Bytes} {hd : Nat}
    (hcr : db.createBucket space name = .ok (hd, db')) : db'.readOnly = db.readOnly := by
  obtain ⟨-, sp, -, hcases⟩ := createBucket_eq_ok hcr
  rcases hcases with ⟨-, rfl⟩ | ⟨-, -, t, -, rfl⟩ <;> rfl

/-- Emptying a namespace empties it in the contents. -/
theorem wrote_deleteNamespace (h : db.table.Shows c) (hn : n.length ≤ Keys.maxNameLength)
    (hd : db.deleteNamespace n = .ok db') : db.Wrote db' (c.clearSpace n) := by
  obtain ⟨sp, -, hro, rfl⟩ := deleteNamespace_eq_ok hd
  exact ⟨hro, hro, h.erasePrefix hn⟩

section Refusals

variable (h : db.table.Shows c) (hown : db.Owned) (hro : db.readOnly = false)
  (hn : n.length ≤ Keys.maxNameLength) (hr : r.Fits) (hrc : r ≠ .chunks)
include h hown hro hn hr hrc

/-- On a store open for writing, a put fails only for a refused value. -/
theorem put_refused (hp : db.put (r.bucketIn n) key value info = .error e) :
    e.refusesValue = true := by
  unfold Database.put at hp
  cases hu : db.update ((r.bucketIn n).putIn key value info) with
  | error e' =>
    rw [hu] at hp
    cases hp
    exact h.putIn_error hown.table hn hr hrc ((update_eq_error hro).1 hu)
  | ok p =>
    rw [hu] at hp
    cases hp

/-- On a store open for writing, an append fails only for a refused value. -/
theorem putValue_refused (hp : db.putValue (r.bucketIn n) value info = .error e) :
    e.refusesValue = true :=
  h.appendIn_error hown.table hn hr hrc ((update_eq_error hro).1 hp)

end Refusals

end Database

end ArchiveStore
