import ArchiveStore.Proofs.Ownership.Writes
import ArchiveStore.Proofs.Host
import ArchiveStore.Database.Open
/-!
# Chunk ownership in open stores and store files

The invariant of `Proofs.Ownership.Writes`, carried up to an open store and to the files of a
host. `Host.StoresOwned` says that every store file of a host holds an owned table; opening a
store (`Database.openOn_owned`) gives an owned table and keeps that, and closing an owned store
(`Database.closeOn_owned`) keeps it too. `Database.Owned` adds what the operations of an open
store need to stay inside the invariant: the registered namespaces and user buckets have names
of at most 255 bytes. Each operation that writes keeps `Database.Owned`.
-/

namespace ArchiveStore

/-- A table with no keys owns its chunks: there are none. -/
theorem Table.ChunksOwned.empty : Table.empty.ChunksOwned :=
  fun _ _ => OwnedChunks.of_empty fun _ _ => Table.get?_empty

namespace Host

/-- Every store file of a host has the chunks of its table owned. -/
def StoresOwned (h : Host) : Prop :=
  ∀ loc t, (loc, Node.file (.store t)) ∈ h.nodes → t.ChunksOwned

variable {h h' : Host} {path : String}

/-- Setting a node keeps the store files owned when the node is no store file or an owned
one. -/
theorem StoresOwned.set (hs : h.StoresOwned) {loc : List String} {n : Node}
    (hn : ∀ t, n = .file (.store t) → t.ChunksOwned) : (h.set loc n).StoresOwned := by
  intro loc' t hmem
  simp only [Host.set, List.mem_append, List.mem_filter, List.mem_singleton] at hmem
  rcases hmem with ⟨hmem, -⟩ | heq
  · exact hs loc' t hmem
  · exact hn t (Prod.mk.inj heq).2.symm

/-- Making a directory and its parents keeps the store files owned: it adds no file. -/
theorem StoresOwned.createDirAll (hs : h.StoresOwned) (hc : h.createDirAll path = .ok h') :
    h'.StoresOwned :=
  fun loc t hmem => hs loc t ((grows_createDirAll hc).files loc _ hmem)

/-- A table opened from a store file of the host is owned. -/
theorem StoresOwned.openStoreFile (hs : h.StoresOwned) {t : Table}
    (ho : h.openStoreFile path = .ok t) : t.ChunksOwned := by
  unfold Host.openStoreFile at ho
  split at ho
  · cases ho
  next t' hr =>
    cases ho
    obtain ⟨loc, hmem⟩ := mem_of_readFile hr
    exact hs loc _ hmem
  · cases ho
  · cases ho

/-- Opening or making a store file gives an owned table, and keeps the store files owned. -/
theorem StoresOwned.createStoreFile (hs : h.StoresOwned) {t : Table}
    (hc : h.createStoreFile path = .ok (t, h')) : t.ChunksOwned ∧ h'.StoresOwned := by
  -- a fresh store is the empty table, written to the file
  have hfresh : ∀ h₁, h.writeFile path (.store Table.empty) = .ok h₁ → h₁.StoresOwned :=
    fun h₁ hw => by
      obtain ⟨tg, -, -, -, rfl⟩ := writeFile_eq_ok hw
      exact hs.set fun t' ht' => by cases ht'; exact Table.ChunksOwned.empty
  unfold Host.createStoreFile at hc
  dsimp only at hc
  split at hc
  · split at hc
    next h₁ hw =>
      cases hc
      exact ⟨Table.ChunksOwned.empty, hfresh _ hw⟩
    · cases hc
  · cases hc
  · cases hc
  next t' hst =>
    cases hc
    obtain ⟨loc, hmem⟩ := mem_of_stat hst
    exact ⟨hs loc _ hmem, hs⟩
  · split at hc
    next h₁ hw =>
      cases hc
      exact ⟨Table.ChunksOwned.empty, hfresh _ hw⟩
    · cases hc
  · cases hc

/-- Saving an owned table keeps the store files owned. -/
theorem StoresOwned.saveStoreFile (hs : h.StoresOwned) {t : Table} (ht : t.ChunksOwned) :
    (h.saveStoreFile path t).StoresOwned := by
  unfold Host.saveStoreFile
  split
  next h₁ hw =>
    obtain ⟨tg, -, -, -, rfl⟩ := writeFile_eq_ok hw
    exact hs.set fun t' ht' => by cases ht'; exact ht
  · exact hs

end Host

namespace Database

variable {α : Type} {db db' : Database} {txn : Txn α} {a : α}

/-- A write succeeds exactly on a store open for writing whose transaction succeeds, and then
only the table changes. -/
theorem update_eq_ok :
    db.update txn = .ok (a, db') ↔
      db.readOnly = false ∧ ∃ t', txn db.table = .ok (a, t') ∧ db' = { db with table := t' } := by
  unfold update
  cases hro : db.readOnly
  · simp only [Bool.false_eq_true, if_false, true_and]
    change (do let x ← txn db.table; pure (x.1, { db with table := x.2, readOnly := false })) =
      _ ↔ _
    cases txn db.table with
    | error e => simp [bind, Except.bind]
    | ok p =>
      obtain ⟨a', t'⟩ := p
      simp only [bind, Except.bind, pure, Except.pure, Except.ok.injEq, Prod.mk.injEq]
      constructor
      · rintro ⟨rfl, rfl⟩
        exact ⟨t', ⟨rfl, rfl⟩, rfl⟩
      · rintro ⟨t'', ⟨rfl, rfl⟩, rfl⟩
        exact ⟨rfl, rfl⟩
  · simp

/-- What an open store keeps along a run: the chunks of its table owned, and every
registered namespace and user bucket named by at most 255 bytes. -/
structure Owned (db : Database) : Prop where
  table : db.table.ChunksOwned
  spaces : ∀ s ∈ db.spaces, s.name.length ≤ Keys.maxNameLength
  buckets : ∀ s ∈ db.spaces, ∀ p ∈ s.buckets, p.1.length ≤ Keys.maxNameLength

variable {host host' : Host} {dir : String}

/-- Opening a store on a host whose store files are owned gives an owned table and keeps the
store files owned. -/
theorem openOn_owned (hs : host.StoresOwned) {ro : Bool}
    (ho : openOn host dir ro = .ok (db, host')) : db.Owned ∧ host'.StoresOwned := by
  -- a store just opened has nothing registered
  have hfresh : ∀ t ro', t.ChunksOwned → ({ table := t, readOnly := ro' } : Database).Owned :=
    fun t ro' ht => ⟨ht, (fun _ hs => by cases hs), (fun _ hs => by cases hs)⟩
  unfold openOn at ho
  split at ho
  · -- for reading only: the host stays as it was
    obtain ⟨t, hopen, hret⟩ := Except.bind_eq_ok.1 ho
    cases hret
    refine ⟨hfresh t true ?_, hs⟩
    unfold Host.openStoreReadOnly at hopen
    dsimp only at hopen
    split at hopen
    · exact hs.openStoreFile hopen
    · cases hopen
  · obtain ⟨⟨t, h₁⟩, hopen, hret⟩ := Except.bind_eq_ok.1 ho
    cases hret
    unfold Host.openStore at hopen
    split at hopen
    · cases hopen
    next h₀ hdir =>
      obtain ⟨ht, hs₁⟩ := (hs.createDirAll hdir).createStoreFile hopen
      exact ⟨hfresh t false ht, hs₁⟩

/-- Closing an owned store keeps the host's store files owned. -/
theorem closeOn_owned (hs : host.StoresOwned) (hdb : db.table.ChunksOwned) :
    (db.closeOn host dir).StoresOwned := by
  unfold closeOn Host.saveStore
  split
  · exact hs
  · exact hs.saveStoreFile hdb

/-- A registered namespace is one of the store's, under the name asked for. -/
theorem space?_eq_some {name : Bytes} {s : Space} (h : db.space? name = some s) :
    s ∈ db.spaces ∧ s.name = name :=
  ⟨List.mem_of_find?_eq_some h, by simpa using List.find?_some h⟩

/-- Replacing a registration by one with keyable names keeps the names keyable. -/
theorem Owned.setSpace (h : db.Owned) {s : Space} (hs : s.name.length ≤ Keys.maxNameLength)
    (hb : ∀ p ∈ s.buckets, p.1.length ≤ Keys.maxNameLength) : (db.setSpace s).Owned := by
  refine ⟨h.table, fun s' hs' => ?_, fun s' hs' => ?_⟩
  · simp only [Database.setSpace, List.mem_map] at hs'
    obtain ⟨s'', hmem, rfl⟩ := hs'
    split
    · exact hs
    · exact h.spaces s'' hmem
  · simp only [Database.setSpace, List.mem_map] at hs'
    obtain ⟨s'', hmem, rfl⟩ := hs'
    split
    · exact hb
    · exact h.buckets s'' hmem

/-- A write whose transaction keeps the chunks owned keeps the store owned. -/
theorem Owned.update (h : db.Owned) (hu : db.update txn = .ok (a, db'))
    (htx : ∀ t', txn db.table = .ok (a, t') → t'.ChunksOwned) : db'.Owned := by
  obtain ⟨-, t', ht, rfl⟩ := update_eq_ok.1 hu
  exact ⟨htx t' ht, h.spaces, h.buckets⟩

/-! ## The operations of an open store -/

/-- Registering a namespace checks its name, and keeps the store owned. -/
theorem Owned.createNamespace (h : db.Owned) {name : Bytes} {hd : Nat}
    (hc : db.createNamespace name = .ok (hd, db')) :
    db'.Owned ∧ name.length ≤ Keys.maxNameLength := by
  unfold Database.createNamespace at hc
  obtain ⟨_, hv, hc⟩ := Except.bind_eq_ok.1 hc
  have hname := (Keys.validateName_eq_ok.1 hv).2
  refine ⟨?_, hname⟩
  split at hc
  · cases hc
    exact h
  -- the registration, after the name list is written unless the store is read-only
  have hreg : ∀ db₁ : Database, db₁.Owned →
      ({ db₁ with spaces := db₁.spaces ++ [Space.mk name db₁.nextHandle []]
                  nextHandle := db₁.nextHandle + 1 } : Database).Owned := by
    intro db₁ h₁
    refine ⟨h₁.table, fun s hs => ?_, fun s hs => ?_⟩
    · rcases List.mem_append.1 hs with hs | hs
      · exact h₁.spaces s hs
      · rw [List.mem_singleton] at hs
        subst hs
        exact hname
    · rcases List.mem_append.1 hs with hs | hs
      · exact h₁.buckets s hs
      · rw [List.mem_singleton] at hs
        subst hs
        intro p hp
        cases hp
  dsimp only at hc
  split at hc
  · cases hc
    exact hreg db h
  · obtain ⟨⟨r, db₁⟩, hu, hc⟩ := Except.bind_eq_ok.1 hc
    cases hc
    exact hreg db₁ (h.update hu fun t' ht => h.table.addIn_namespaceList ht)

/-- Emptying a registered namespace keeps the store owned. -/
theorem Owned.deleteNamespace (h : db.Owned) {name : Bytes}
    (hd : db.deleteNamespace name = .ok db') : db'.Owned := by
  unfold Database.deleteNamespace at hd
  split at hd
  · cases hd
  next s hs =>
    obtain ⟨hmem, rfl⟩ := space?_eq_some hs
    obtain ⟨⟨u, db₁⟩, hu, hret⟩ := Except.bind_eq_ok.1 hd
    cases hret
    have h₁ := h.update hu fun t' ht => by
      rw [Txn.deletePrefix_run, Except.ok.injEq, Prod.mk.injEq] at ht
      rw [← ht.2]
      exact h.table.erasePrefix (h.spaces s hmem)
    exact h₁.setSpace (h.spaces s hmem) fun p hp => by cases hp

/-- A namespace the store requires is registered. -/
theorem requireSpace_eq_ok {name : Bytes} {s : Space} (h : db.requireSpace name = .ok s) :
    s ∈ db.spaces ∧ s.name = name := by
  unfold requireSpace at h
  split at h
  next s' hs =>
    cases h
    exact space?_eq_some hs
  · cases h

/-! ## The writes of an open store, as transactions

Each write that succeeded ran one transaction on the store's table. The lemmas below say which,
so that what a write keeps is proved of its transaction, without unfolding the write. -/

section Transactions

variable {b : Bucket} {key : Bytes}

/-- A put that succeeded ran the bucket's put as one transaction. -/
theorem put_eq_ok {value : Bytes} {info : Option Meta} (hp : db.put b key value info = .ok db') :
    ∃ u, db.update (b.putIn key value info) = .ok (u, db') := by
  obtain ⟨⟨u, db₁⟩, hu, hret⟩ := Except.bind_eq_ok.1 hp
  cases hret
  exact ⟨u, hu⟩

/-- A removal that succeeded ran the bucket's removal as one transaction. -/
theorem delete_eq_ok (hd : db.delete b key = .ok db') :
    ∃ found, db.update (b.deleteIn key) = .ok (found, db') := by
  obtain ⟨⟨found, db₁⟩, hu, hret⟩ := Except.bind_eq_ok.1 hd
  cases hret
  exact ⟨found, hu⟩

/-- A document write that succeeded is a put of the document's encoding, with no meta. -/
theorem putDocument_eq_ok {doc : Document} (hp : db.putDocument b key doc = .ok db') :
    ∃ encoded, doc.encode = .ok encoded ∧ db.put b key encoded none = .ok db' :=
  Except.bind_eq_ok.1 hp

/-- A combined write that succeeded ran on a store open for writing: it stored the objects in
the object bucket one after another, then the document's encoding, and only the table
changed. -/
theorem putDocumentWithObjects_eq_ok {space : Bytes} {doc : Document} {objects : List Resource}
    (hp : db.putDocumentWithObjects space key doc objects = .ok db') :
    db.readOnly = false ∧ ∃ t₁ encoded u t', (forIn objects PUnit.unit fun o _ => do
        (Bucket.objects (Space.keyPrefix space)).putIn o.key o.data o.info
        pure (ForInStep.yield PUnit.unit) : Txn PUnit) db.table = .ok (PUnit.unit, t₁) ∧
      doc.encode = .ok encoded ∧
      (Bucket.documents (Space.keyPrefix space)).putIn key encoded none t₁ = .ok (u, t') ∧
      db' = { db with table := t' } := by
  unfold Database.putDocumentWithObjects at hp
  obtain ⟨⟨u, db₁⟩, hu, hret⟩ := Except.bind_eq_ok.1 hp
  cases hret
  obtain ⟨hro, t', ht, rfl⟩ := update_eq_ok.1 hu
  obtain ⟨_, t₁, hloop, hrest⟩ := bind_run_eq_ok.1 ht
  obtain ⟨encoded, t₂, hrun, hdoc⟩ := bind_run_eq_ok.1 hrest
  obtain ⟨henc, rfl⟩ := Txn.ofExcept_eq_ok.1 hrun
  exact ⟨hro, _, encoded, u, t', hloop, henc, hdoc, rfl⟩

/-- A user bucket deletion that succeeded found the namespace registered, with the bucket among
its user buckets, and cleared the bucket as one transaction. -/
theorem deleteBucket_eq_ok {space name : Bytes} (hd : db.deleteBucket space name = .ok db') :
    ∃ s hb u, s ∈ db.spaces ∧ s.name = space ∧ (name, hb) ∈ s.buckets ∧
      db.update (Bucket.user (Space.keyPrefix space) name).clearIn = .ok (u, db') := by
  unfold Database.deleteBucket at hd
  obtain ⟨s, hs, hd⟩ := Except.bind_eq_ok.1 hd
  obtain ⟨hmem, hsn⟩ := requireSpace_eq_ok hs
  split at hd
  · cases hd
  next hb hlook =>
    obtain ⟨l₁, l₂, hbuckets, -⟩ := List.lookup_eq_some_iff.1 hlook
    obtain ⟨⟨u, db₁⟩, hu, hret⟩ := Except.bind_eq_ok.1 hd
    cases hret
    exact ⟨s, hb, u, hmem, hsn, by rw [hbuckets]; simp, hu⟩

end Transactions

/-- One more registration under a name that fits keeps every registered name fitting. -/
theorem names_fit_append {bs : List (Bytes × Nat)}
    (hbs : ∀ p ∈ bs, p.1.length ≤ Keys.maxNameLength) {name : Bytes}
    (hname : name.length ≤ Keys.maxNameLength) (h : Nat) :
    ∀ p ∈ bs ++ [(name, h)], p.1.length ≤ Keys.maxNameLength := by
  intro p hp
  rcases List.mem_append.1 hp with hp | hp
  · exact hbs p hp
  · rw [List.mem_singleton.1 hp]
    exact hname

/-- Registering a user bucket checks its name, and keeps the store owned. -/
theorem Owned.createBucket (h : db.Owned) {space name : Bytes} {hd : Nat}
    (hc : db.createBucket space name = .ok (hd, db')) :
    db'.Owned ∧ name.length ≤ Keys.maxNameLength := by
  unfold Database.createBucket at hc
  obtain ⟨_, hv, hc⟩ := Except.bind_eq_ok.1 hc
  have hname := (Keys.validateName_eq_ok.1 hv).2
  obtain ⟨s, hs, hc⟩ := Except.bind_eq_ok.1 hc
  obtain ⟨hmem, rfl⟩ := requireSpace_eq_ok hs
  refine ⟨?_, hname⟩
  split at hc
  · cases hc
    exact h
  -- the registration, after the name list is written unless the store is read-only
  have hreg : ∀ db₁ : Database, db₁.Owned →
      ({ db₁.setSpace { s with buckets := s.buckets ++ [(name, db₁.nextHandle)] } with
          nextHandle := db₁.nextHandle + 1 } : Database).Owned := by
    intro db₁ h₁
    have h₂ := h₁.setSpace (s := { s with buckets := s.buckets ++ [(name, db₁.nextHandle)] })
      (h.spaces s hmem) (names_fit_append (h.buckets s hmem) hname db₁.nextHandle)
    exact ⟨h₂.table, h₂.spaces, h₂.buckets⟩
  dsimp only at hc
  split at hc
  · cases hc
    exact hreg db h
  · obtain ⟨⟨r, db₁⟩, hu, hc⟩ := Except.bind_eq_ok.1 hc
    cases hc
    exact hreg db₁ (h.update hu fun t' ht => h.table.addIn_bucketList (h.spaces s hmem) ht)

/-- Clearing a registered user bucket keeps the store owned. -/
theorem Owned.deleteBucket (h : db.Owned) {space name : Bytes}
    (hd : db.deleteBucket space name = .ok db') : db'.Owned := by
  obtain ⟨s, hb, u, hmem, rfl, hbmem, hu⟩ := deleteBucket_eq_ok hd
  -- a registered bucket has a name that can be keyed
  have hname : name.length ≤ Keys.maxNameLength := h.buckets s hmem (name, hb) hbmem
  exact h.update hu fun t' ht =>
    h.table.clearIn (.inr (.inr ⟨name, hname, rfl⟩)) (h.spaces s hmem) ht

/-- Registering stored bucket names keeps only names of at most 255 bytes, and the
namespace's name. -/
theorem registerStored_keyable {s : Space} (next added : Nat) (names : List Bytes)
    (hb : ∀ p ∈ s.buckets, p.1.length ≤ Keys.maxNameLength) :
    (∀ p ∈ (registerStored s next added names).1.buckets, p.1.length ≤ Keys.maxNameLength) ∧
      (registerStored s next added names).1.name = s.name := by
  induction names generalizing s next added with
  | nil => exact ⟨hb, rfl⟩
  | cons name rest ih =>
    unfold registerStored
    split
    · exact ih next added hb
    split
    · exact ⟨hb, rfl⟩
    next hlong =>
      exact ih (next + 1) (added + 1) (names_fit_append hb (Nat.le_of_not_lt hlong) next)

/-- Loading the stored bucket names keeps the store owned, whether or not the walk aborts. -/
theorem Owned.loadBuckets (h : db.Owned) (space : Bytes) : (db.loadBuckets space).2.Owned := by
  unfold Database.loadBuckets
  split
  · exact h
  · exact h
  next s stored hs _ =>
    obtain ⟨hmem, -⟩ := requireSpace_eq_ok hs
    obtain ⟨hb, hname⟩ := registerStored_keyable db.nextHandle 0 stored (h.buckets s hmem)
    have hspace : (registerStored s db.nextHandle 0 stored).1.name.length ≤
        Keys.maxNameLength := hname ▸ h.spaces s hmem
    have h₁ := h.setSpace hspace hb
    exact ⟨h₁.table, h₁.spaces, h₁.buckets⟩

section Writes

variable {b : Bucket} {n key value : Bytes} {info : Option Meta}

/-- Storing a value in a data bucket keeps the store owned. -/
theorem Owned.put (h : db.Owned) (hb : b.IsData (Keys.namespacePrefix n))
    (hn : n.length ≤ Keys.maxNameLength) (hp : db.put b key value info = .ok db') : db'.Owned := by
  obtain ⟨u, hu⟩ := put_eq_ok hp
  exact h.update hu fun _ ht => h.table.putIn hb hn ht

/-- Appending a value to a data bucket keeps the store owned. -/
theorem Owned.putValue (h : db.Owned) (hb : b.IsData (Keys.namespacePrefix n))
    (hn : n.length ≤ Keys.maxNameLength) {k : Bytes}
    (hp : db.putValue b value info = .ok (k, db')) : db'.Owned :=
  h.update hp fun _ ht => h.table.appendIn hb hn ht

/-- Removing an entry of a data bucket keeps the store owned. -/
theorem Owned.delete (h : db.Owned) (hb : b.IsData (Keys.namespacePrefix n))
    (hn : n.length ≤ Keys.maxNameLength) (hd : db.delete b key = .ok db') : db'.Owned := by
  obtain ⟨found, hu⟩ := delete_eq_ok hd
  exact h.update hu fun _ ht => h.table.deleteIn hb hn ht

/-- Storing a document in a data bucket keeps the store owned. -/
theorem Owned.putDocument (h : db.Owned) (hb : b.IsData (Keys.namespacePrefix n))
    (hn : n.length ≤ Keys.maxNameLength) {doc : Document}
    (hp : db.putDocument b key doc = .ok db') : db'.Owned := by
  obtain ⟨encoded, -, hp⟩ := putDocument_eq_ok hp
  exact h.put hb hn hp

/-- Storing a document and objects beside it keeps the store owned. -/
theorem Owned.putDocumentWithObjects (h : db.Owned) (hn : n.length ≤ Keys.maxNameLength)
    {doc : Document} {objects : List Resource}
    (hp : db.putDocumentWithObjects n key doc objects = .ok db') : db'.Owned := by
  obtain ⟨-, t₁, encoded, u, t', hloop, -, hdoc, rfl⟩ := putDocumentWithObjects_eq_ok hp
  -- the objects one after another, then the document
  exact ⟨(h.table.forIn_putIn hn hloop).putIn (.inl rfl) hn hdoc, h.spaces, h.buckets⟩

end Writes

end Database

end ArchiveStore
