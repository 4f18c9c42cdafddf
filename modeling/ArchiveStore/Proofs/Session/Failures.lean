import ArchiveStore.Proofs.Ownership.Sessions
/-!
# Failed requests leave no trace

A request that asks the store for a change (`Request.mutates`) either answers or leaves the
session exactly as it was: the machine's files, the open store with its table and its
registrations, and every handle and cursor (`Session.step_frame`). Every write runs as one
transaction, so a failure part-way through a combined write, a split value or a counter is
discarded with the transaction.

A store opened for reading only refuses every write, and registers namespaces and user buckets
in memory alone; along a run of requests answered by the open store, its table and the
machine's files stay as they were (`Session.ReadsOnly.runAll`).

`failed_mutations_leave_no_trace` puts the two together with one refusal the callers rely on:
a combined write with a negative chunk size on any of its objects is refused as a whole.
-/

namespace ArchiveStore

/-- Whether a request asks the store for a change: a put, a delete, a document write, or the
creation or deletion of a namespace or user bucket. -/
def Request.mutates : Request → Bool
  | .put .. | .putValue .. | .delete .. | .putDocument .. | .putDocumentWithObjects ..
  | .createNamespace _ | .deleteNamespace _ | .createBucket .. | .deleteBucket .. => true
  | _ => false

/-- Whether a request is carried out by the open store: every request but reopening it, raw
access to its file, writing another file and running the inspection tool. -/
def Request.onStore : Request → Bool
  | .reopen _ | .makeFile .. | .replaceStoreFile _ | .console _ | .dumpTable | .setRecord ..
  | .deleteRecord _ => false
  | _ => true

/-! ## A read-only store refuses every write -/

namespace Database

variable {db db' : Database} {α : Type}

theorem update_of_readOnly (h : db.readOnly = true) (txn : Txn α) :
    db.update txn = .error .readOnly := by
  rw [update, if_pos h]

theorem put_of_readOnly (h : db.readOnly = true) (b : Bucket) (key value : Bytes)
    (info : Option Meta) : db.put b key value info = .error .readOnly := by
  rw [put, update_of_readOnly h]
  rfl

theorem putValue_of_readOnly (h : db.readOnly = true) (b : Bucket) (value : Bytes)
    (info : Option Meta) : db.putValue b value info = .error .readOnly :=
  update_of_readOnly h _

theorem delete_of_readOnly (h : db.readOnly = true) (b : Bucket) (key : Bytes) :
    db.delete b key = .error .readOnly := by
  rw [delete, update_of_readOnly h]
  rfl

theorem putDocumentWithObjects_of_readOnly (h : db.readOnly = true) (space key : Bytes)
    (doc : Document) (objects : List Resource) :
    db.putDocumentWithObjects space key doc objects = .error .readOnly := by
  rw [putDocumentWithObjects, update_of_readOnly h]
  rfl

/-- A read-only store refuses a document write: as too deep, or as read-only. -/
theorem putDocument_of_readOnly (h : db.readOnly = true) (b : Bucket) (key : Bytes)
    (doc : Document) : ∃ e, db.putDocument b key doc = .error e := by
  unfold putDocument
  cases doc.encode with
  | error e => exact ⟨e, rfl⟩
  | ok encoded =>
    have hput : (db.update (b.putIn key encoded none) >>= fun p => pure p.2) = .error .readOnly := by
      rw [update_of_readOnly h]
      rfl
    exact ⟨.readOnly, hput⟩

/-- A read-only store refuses to delete a namespace: as not registered, or as read-only. -/
theorem deleteNamespace_of_readOnly (h : db.readOnly = true) (name : Bytes) :
    ∃ e, db.deleteNamespace name = .error e := by
  unfold deleteNamespace
  split
  · exact ⟨_, rfl⟩
  · exact ⟨.readOnly, by rw [update_of_readOnly h]; rfl⟩

/-- A read-only store refuses to delete a user bucket: as not registered, or as read-only. -/
theorem deleteBucket_of_readOnly (h : db.readOnly = true) (space name : Bytes) :
    ∃ e, db.deleteBucket space name = .error e := by
  cases hd : db.deleteBucket space name with
  | error e => exact ⟨e, rfl⟩
  | ok db' =>
    -- a deletion that went through would have gone through the refused transaction
    obtain ⟨-, -, u, -, -, -, hu⟩ := deleteBucket_eq_ok hd
    rw [update_of_readOnly h] at hu
    cases hu

/-- On a read-only store, registering a namespace touches the registrations only. -/
theorem createNamespace_of_readOnly (h : db.readOnly = true) {name : Bytes} {n : Nat}
    (hc : db.createNamespace name = .ok (n, db')) : db'.readOnly = true ∧ db'.table = db.table := by
  unfold createNamespace at hc
  obtain ⟨_, -, hc⟩ := Except.bind_eq_ok.1 hc
  split at hc
  · cases hc
    exact ⟨h, rfl⟩
  · -- a read-only store skips the stored list
    simp only [h, if_true] at hc
    cases hc
    exact ⟨h, rfl⟩

/-- On a read-only store, registering a user bucket touches the registrations only. -/
theorem createBucket_of_readOnly (h : db.readOnly = true) {space name : Bytes} {n : Nat}
    (hc : db.createBucket space name = .ok (n, db')) : db'.readOnly = true ∧ db'.table = db.table := by
  unfold createBucket at hc
  obtain ⟨_, -, hc⟩ := Except.bind_eq_ok.1 hc
  obtain ⟨s, -, hc⟩ := Except.bind_eq_ok.1 hc
  split at hc
  · cases hc
    exact ⟨h, rfl⟩
  · simp only [h, if_true] at hc
    cases hc
    exact ⟨h, rfl⟩

/-- Loading the stored user buckets registers them and writes nothing. -/
theorem loadBuckets_table (space : Bytes) :
    (db.loadBuckets space).2.readOnly = db.readOnly ∧ (db.loadBuckets space).2.table = db.table := by
  unfold loadBuckets
  split <;> exact ⟨rfl, rfl⟩

end Database

/-! ## A negative chunk size anywhere refuses a combined write -/

namespace Bucket

variable {b : Bucket} {key value : Bytes}

/-- A meta with a negative chunk size is refused before anything is written. -/
theorem putIn_negative {m : Meta} (hm : m.chunkSize < 0) (t : Table) :
    b.putIn key value (some m) t = .error (.negativeChunkSize m.chunkSize.toInt) := by
  have hne : m.chunkSize ≠ 0 := fun h0 => absurd (h0 ▸ hm) (by decide)
  have hsplit : m.splitSize = .error (.negativeChunkSize m.chunkSize.toInt) := by
    rw [Meta.splitSize, if_neg hne, if_pos hm]
  have hrecord : b.metaRecordIn value m t = .error (.negativeChunkSize m.chunkSize.toInt) := by
    unfold metaRecordIn
    exact bind_run_of_error (by rw [Txn.ofExcept, hsplit]; rfl)
  exact bind_run_of_error hrecord

/-- Storing objects one after another fails when any of them has a negative chunk size: the
objects before it are stored or refused, and it is refused. -/
theorem forIn_putIn_negative (home : Bytes) {objs : List Resource}
    (hbad : ∃ o ∈ objs, ∃ m, o.info = some m ∧ m.chunkSize < 0) (t : Table) :
    ∃ e, (forIn objs PUnit.unit fun o _ => do
        (Bucket.objects home).putIn o.key o.data o.info
        pure (ForInStep.yield PUnit.unit) : Txn PUnit) t = .error e := by
  induction objs generalizing t with
  | nil =>
    obtain ⟨o, ho, -⟩ := hbad
    cases ho
  | cons o os ih =>
    rw [List.forIn_cons]
    obtain ⟨o', ho', m, hinfo, hm⟩ := hbad
    rcases List.mem_cons.1 ho' with rfl | hrest
    · -- the first object is the refused one
      rw [hinfo]
      exact ⟨_, bind_run_of_error (bind_run_of_error (putIn_negative hm t))⟩
    · -- the first object is stored or refused; once stored, the refused one comes later
      cases hput : (Bucket.objects home).putIn o.key o.data o.info t with
      | error e => exact ⟨e, bind_run_of_error (bind_run_of_error hput)⟩
      | ok p =>
        have hbody : ((Bucket.objects home).putIn o.key o.data o.info >>= fun _ =>
            pure (ForInStep.yield PUnit.unit) : Txn _) t = .ok (.yield PUnit.unit, p.2) :=
          bind_run_of_ok hput
        obtain ⟨e, he⟩ := ih ⟨o', hrest, m, hinfo, hm⟩ p.2
        exact ⟨e, (bind_run_of_ok hbody).trans he⟩

end Bucket

theorem Database.putDocumentWithObjects_negative (db : Database) (space key : Bytes)
    (doc : Document) {objects : List Resource}
    (hbad : ∃ o ∈ objects, ∃ m, o.info = some m ∧ m.chunkSize < 0) :
    ∃ e, db.putDocumentWithObjects space key doc objects = .error e := by
  cases hput : db.putDocumentWithObjects space key doc objects with
  | error e => exact ⟨e, rfl⟩
  | ok db' =>
    -- a write that went through would have run the object loop to its end
    exfalso
    unfold putDocumentWithObjects at hput
    obtain ⟨p, hupd, -⟩ := Except.bind_eq_ok.1 hput
    obtain ⟨-, t', htxn, -⟩ := update_eq_ok.1 hupd
    obtain ⟨_, t₁, hloop, -⟩ := bind_run_eq_ok.1 htxn
    obtain ⟨e, he⟩ := Bucket.forIn_putIn_negative (Space.keyPrefix space) hbad db.table
    cases he.symm.trans hloop

/-! ## A failed request leaves the session as it was -/

namespace Session

variable {s : Session} {α : Type}

/-- A change of the open store either answers, or leaves the session as it was. -/
theorem change_frame (f : Database → Except StoreError (α × Database)) (g : α → Reply) :
    (∃ a, (s.change f).1.map g = .ok a) ∨ (s.change f).2 = s := by
  unfold Session.change
  split
  · exact .inr rfl
  · split
    · exact .inl ⟨_, rfl⟩
    · exact .inr rfl

/-- A change the open store always refuses is answered with an error. -/
theorem change_refused {f : Database → Except StoreError (α × Database)} (g : α → Reply)
    (hf : ∀ db, ∃ e, f db = .error e) : ∃ e, (s.change f).1.map g = .error e := by
  unfold Session.change
  split
  · exact ⟨_, rfl⟩
  next db _ =>
    obtain ⟨e, he⟩ := hf db
    rw [he]
    exact ⟨_, rfl⟩

/-- A request that asks the store for a change either answers, or leaves the session as it
was: its machine, its open store and every handle. -/
theorem step_frame {r : Request} (hr : r.mutates = true) :
    (∃ a, (s.step r).1 = .ok a) ∨ (s.step r).2 = s := by
  cases r
  case createNamespace space =>
    dsimp only [Session.step]
    split
    · exact .inr rfl
    · split
      · exact .inr rfl
      · exact .inl ⟨_, rfl⟩
  case createBucket space name =>
    dsimp only [Session.step]
    split
    · exact .inr rfl
    · split
      · exact .inr rfl
      · exact .inl ⟨_, rfl⟩
  case deleteNamespace space =>
    exact change_frame _ _
  case deleteBucket | putDocumentWithObjects | putDocument | put | putValue | delete =>
    -- the handles are checked first; a missing one is answered before the store is asked
    dsimp only [Session.step]
    split
    · exact .inr rfl
    · exact change_frame _ _
  all_goals simp [Request.mutates] at hr

/-- A request that asks the store for a change and fails leaves the session as it was. -/
theorem step_error {r : Request} (hr : r.mutates = true) {e : SessionError}
    (he : (s.step r).1 = .error e) : (s.step r).2 = s := by
  rcases step_frame hr with ⟨a, ha⟩ | hs
  · rw [ha] at he
    cases he
  · exact hs

/-- A combined write with a negative chunk size on any of its objects is refused. -/
theorem step_putDocumentWithObjects_negative (s : Session) (space key : Bytes) (doc : Document)
    {objects : List Resource} (hbad : ∃ o ∈ objects, ∃ m, o.info = some m ∧ m.chunkSize < 0) :
    ∃ e, (s.step (.putDocumentWithObjects space key doc objects)).1 = .error e := by
  dsimp only [Session.step]
  split
  · exact ⟨_, rfl⟩
  · exact change_refused _ fun db => by
      obtain ⟨e, he⟩ := db.putDocumentWithObjects_negative space key doc hbad
      exact ⟨e, by rw [he]; rfl⟩

/-! ## A read-only store writes nothing -/

/-- The session's store is open for reading only with the table `t`, on the machine `host`. -/
structure ReadsOnly (s : Session) (t : Table) (host : Host) : Prop where
  host : s.host = host
  db : ∃ db, s.db = some db ∧ db.readOnly = true ∧ db.table = t

variable {t : Table} {host : Host}

theorem ReadsOnly.of_requireDb (h : s.ReadsOnly t host) {db : Database}
    (hdb : s.requireDb = .ok db) : db.readOnly = true ∧ db.table = t := by
  obtain ⟨db₀, hdb₀, hro, ht⟩ := h.db
  rw [requireDb_eq_ok hdb] at hdb₀
  cases hdb₀
  exact ⟨hro, ht⟩

/-- A session that keeps its machine and its open store keeps reading only. -/
theorem ReadsOnly.of_frame (h : s.ReadsOnly t host) {s' : Session} (hhost : s'.host = s.host)
    (hdb : s'.db = s.db) : s'.ReadsOnly t host :=
  ⟨hhost.trans h.host, hdb ▸ h.db⟩

/-- A session whose open store is replaced by one that reads the same table only keeps
reading only. -/
theorem ReadsOnly.with_db (h : s.ReadsOnly t host) {s' : Session} {db' : Database}
    (hhost : s'.host = s.host) (hdb : s'.db = some db') (hro : db'.readOnly = true)
    (ht : db'.table = t) : s'.ReadsOnly t host :=
  ⟨hhost.trans h.host, ⟨db', hdb, hro, ht⟩⟩

/-- A change that a read-only store refuses, or that keeps its table, keeps reading only. -/
theorem ReadsOnly.change (h : s.ReadsOnly t host) {f : Database → Except StoreError (α × Database)}
    (hf : ∀ db a db', db.readOnly = true → f db = .ok (a, db') →
      db'.readOnly = true ∧ db'.table = db.table) : (s.change f).2.ReadsOnly t host := by
  unfold Session.change
  split
  · exact h
  next db hdb =>
    split
    next a db' hok =>
      have ⟨hro, ht⟩ := h.of_requireDb hdb
      have ⟨hro', ht'⟩ := hf db a db' hro hok
      exact h.with_db rfl rfl hro' (ht'.trans ht)
    · exact h

/-- A change the store refuses when read-only keeps reading only. -/
theorem ReadsOnly.refused (h : s.ReadsOnly t host) {f : Database → Except StoreError (α × Database)}
    (hf : ∀ db, db.readOnly = true → ∃ e, f db = .error e) : (s.change f).2.ReadsOnly t host :=
  h.change fun db a db' hro hok => by
    obtain ⟨e, he⟩ := hf db hro
    rw [he] at hok
    cases hok

/-- An operation refused by a read-only store, as the session runs it, is refused. -/
theorem refused_unit {β : Type} {x : Except StoreError β} (hop : ∃ e, x = .error e) :
    ∃ e, (do return ((), ← x) : Except StoreError (Unit × β)) = .error e := by
  obtain ⟨e, he⟩ := hop
  exact ⟨e, by rw [he]; rfl⟩

/-- One request answered by a read-only store keeps the machine and the store's table. -/
theorem ReadsOnly.step (h : s.ReadsOnly t host) {r : Request} (hr : r.onStore = true) :
    (s.step r).2.ReadsOnly t host := by
  cases r
  case createNamespace space =>
    dsimp only [Session.step]
    split
    · exact h
    next db hdb =>
      split
      · exact h
      next hd db' hc =>
        have ⟨hro, ht⟩ := h.of_requireDb hdb
        have ⟨hro', ht'⟩ := db.createNamespace_of_readOnly hro hc
        exact h.with_db rfl rfl hro' (ht'.trans ht)
  case createBucket space name =>
    dsimp only [Session.step]
    split
    · exact h
    next db hdb =>
      split
      · exact h
      next hd db' hc =>
        obtain ⟨_, -, hdb⟩ := Except.bind_eq_ok.1 hdb
        have ⟨hro, ht⟩ := h.of_requireDb hdb
        have ⟨hro', ht'⟩ := db.createBucket_of_readOnly hro hc
        exact h.with_db rfl rfl hro' (ht'.trans ht)
  case loadBuckets space =>
    dsimp only [Session.step]
    split
    · exact h
    split
    · exact h
    next db hdb =>
      have ⟨hro, ht⟩ := h.of_requireDb hdb
      have ⟨hro', ht'⟩ := db.loadBuckets_table space
      exact h.with_db rfl rfl (hro'.trans hro) (ht'.trans ht)
  case deleteNamespace space =>
    exact h.refused fun db hro => refused_unit (db.deleteNamespace_of_readOnly hro space)
  case deleteBucket space name =>
    dsimp only [Session.step]
    split
    · exact h
    · exact h.refused fun db hro => refused_unit (db.deleteBucket_of_readOnly hro space name)
  case putDocumentWithObjects space key doc objects =>
    dsimp only [Session.step]
    split
    · exact h
    · exact h.refused fun db hro =>
        refused_unit ⟨_, db.putDocumentWithObjects_of_readOnly hro space key doc objects⟩
  case putDocument space key doc =>
    dsimp only [Session.step]
    split
    · exact h
    · exact h.refused fun db hro => refused_unit (db.putDocument_of_readOnly hro _ key doc)
  case put space r key value info =>
    dsimp only [Session.step]
    split
    · exact h
    · exact h.refused fun db hro => refused_unit ⟨_, db.put_of_readOnly hro _ key value info⟩
  case putValue space r value info =>
    dsimp only [Session.step]
    split
    · exact h
    · exact h.refused fun db hro => ⟨_, db.putValue_of_readOnly hro _ value info⟩
  case delete space r key =>
    dsimp only [Session.step]
    split
    · exact h
    · exact h.refused fun db hro => refused_unit ⟨_, db.delete_of_readOnly hro _ key⟩
  case reopen | makeFile | replaceStoreFile | console | dumpTable | setRecord | deleteRecord =>
    simp [Request.onStore] at hr
  case listBuckets | storedBuckets | getDocument | get | getAt | getMeta | contains | count |
      scan =>
    -- reads through a handle leave the session as it was
    dsimp only [Session.step]
    split <;> exact h
  case find | advance | release =>
    -- cursor requests change the cursors only
    dsimp only [Session.step]
    split
    · exact h
    · exact h.of_frame rfl rfl
  case range =>
    dsimp only [Session.step]
    split
    · exact h
    · split
      · exact h
      · exact h.of_frame rfl rfl
  -- the other requests answer from the session as it is
  all_goals exact h

/-- Along a run of requests answered by a read-only store, the machine and the store's table
stay as they were. -/
theorem ReadsOnly.runAll (h : s.ReadsOnly t host) {reqs : List Request}
    (hreqs : ∀ r ∈ reqs, r.onStore = true) : (s.runAll reqs).ReadsOnly t host := by
  induction reqs generalizing s with
  | nil => exact h
  | cons r rs ih =>
    exact ih (h.step (hreqs r List.mem_cons_self)) fun r' hr' =>
      hreqs r' (List.mem_cons_of_mem _ hr')

end Session

/-- A request that asks the store for a change and fails leaves the session exactly as it
was: the machine's files, the open store's table and registrations, and every handle. Along
every run of requests answered by a store opened for reading only, the machine's files and the
store's table stay as they were; registering namespaces and buckets there only registers them.
A combined write with a negative chunk size on any of its objects is refused, and so leaves no
trace. -/
theorem failed_mutations_leave_no_trace :
    (∀ (s : Session) (r : Request), r.mutates = true →
      ∀ e, (s.step r).1 = .error e → (s.step r).2 = s) ∧
    (∀ (s : Session) (db : Database), s.db = some db → db.readOnly = true →
      ∀ reqs : List Request, (∀ r ∈ reqs, r.onStore = true) →
        (s.runAll reqs).host = s.host ∧
        ∃ db', (s.runAll reqs).db = some db' ∧ db'.readOnly = true ∧ db'.table = db.table) ∧
    (∀ (s : Session) (space key : Bytes) (doc : Document) (objects : List Resource),
      (∃ o ∈ objects, ∃ m, o.info = some m ∧ m.chunkSize < 0) →
      (∃ e, (s.step (.putDocumentWithObjects space key doc objects)).1 = .error e) ∧
        (s.step (.putDocumentWithObjects space key doc objects)).2 = s) := by
  refine ⟨fun s r hr e he => Session.step_error hr he, fun s db hdb hro reqs hreqs => ?_,
    fun s space key doc objects hbad => ?_⟩
  · have h : s.ReadsOnly db.table s.host := ⟨rfl, db, hdb, hro, rfl⟩
    have hrun := h.runAll hreqs
    exact ⟨hrun.host, hrun.db⟩
  · obtain ⟨e, he⟩ := Session.step_putDocumentWithObjects_negative s space key doc hbad
    exact ⟨⟨e, he⟩, Session.step_error rfl he⟩

/-- In a fresh session, a combined write whose second object has a negative chunk size is
refused and changes nothing. -/
theorem failed_combined_write_sample :
    let objects : List Resource := [⟨Bytes.ofString "a", Bytes.ofString "x", none⟩,
      ⟨Bytes.ofString "b", Bytes.ofString "y", some ⟨"", -1, 0, []⟩⟩]
    let s := (Session.start false).1
    (∃ o ∈ objects, ∃ m, o.info = some m ∧ m.chunkSize < 0) ∧
      (∃ e, (s.step (.putDocumentWithObjects (Bytes.ofString "ns") (Bytes.ofString "d") []
        objects)).1 = .error e) ∧
      (s.step (.putDocumentWithObjects (Bytes.ofString "ns") (Bytes.ofString "d") [] objects)).2 = s := by
  intro objects s
  have hbad : ∃ o ∈ objects, ∃ m, o.info = some m ∧ m.chunkSize < 0 :=
    ⟨_, List.mem_cons_of_mem _ List.mem_cons_self, _, rfl, by decide⟩
  exact ⟨hbad, failed_mutations_leave_no_trace.2.2 s _ _ [] objects hbad⟩

end ArchiveStore
