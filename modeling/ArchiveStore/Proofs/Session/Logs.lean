import ArchiveStore.Proofs.Contents.Stores
import ArchiveStore.Proofs.Session.Home
/-!
# Logs kept beside a session

A run of a session can keep a log beside it, moved by each request's answer (`after`), together
with a property `Agrees x t` of the tables `t` that agree with the log `x`: the contents the
writes made, or the keys the appends handed out. The run keeps the session's store agreeing with
its log (`Session.Tracks` for `Agrees x`) whenever the store's writes keep the agreement, which
is what `Session.LogRules` asks of `after` and `Agrees`:

* a failed request, a request that asks for no change, and a registration move no log;
* registering a namespace or a bucket keeps a table agreeing;
* each other write that succeeded was made on a store open for writing, leaves it so, and leaves
  a table agreeing with the log its answer moves (`Database.Leaves`).

`Session.Tracks.logStep` is the step lemma, one case per kind of request that writes, and
`Session.Tracks.logRun` the run lemma. A request that asks for no change keeps every property of
tables that a reopen keeps (`Session.Tracks.step_of_not_mutates`).
-/

namespace ArchiveStore

/-- A request within the contents goes through buckets. -/
theorem Request.throughBuckets_of_staysInModel {r : Request} (h : r.staysInModel = true) :
    r.throughBuckets = true := by
  cases r <;> simp_all [Request.staysInModel, Request.throughBuckets]

/-- `db'` is what a write that succeeded left of `db`, with a table satisfying `P`: the store
was open for writing, and stays so. -/
structure Database.Leaves (db db' : Database) (P : Table → Prop) : Prop where
  writable : db.readOnly = false
  stays : db'.readOnly = false
  holds : P db'.table

/-- A transaction that leads the store's table to one satisfying `P` leaves the store there. -/
theorem Database.leaves_update {db db' : Database} {P : Table → Prop} {α : Type} {txn : Txn α}
    {a : α} (hu : db.update txn = .ok (a, db'))
    (htx : ∀ t', txn db.table = .ok (a, t') → P t') :
    db.Leaves db' P := by
  obtain ⟨hro, t', ht, rfl⟩ := Database.update_eq_ok.1 hu
  exact ⟨hro, hro, htx t' ht⟩

namespace Session

variable {L : Type} {after : L → Request → Except SessionError Reply → L}
  {Agrees : L → Table → Prop} {s : Session} {x : L}

/-- A bucket a session holds the handles for is the bucket its reference names, the reference
fits, and the namespace's name can be keyed. -/
theorem Owned.bucketOf_fits (h : s.Owned) {space : Bytes} {bref : BucketRef} {b : Bucket}
    (hb : s.bucketOf space bref = .ok b) :
    b = bref.bucketIn space ∧ bref.Fits ∧ space.length ≤ Keys.maxNameLength := by
  obtain ⟨hreq, hcases⟩ := bucketOf_eq_ok hb
  have hn := h.requireSpace hreq
  rcases hcases with ⟨rfl, rfl⟩ | ⟨rfl, rfl⟩ | ⟨rfl, rfl⟩ | ⟨name, rfl, hsome, rfl⟩
  · exact ⟨rfl, trivial, hn⟩
  · exact ⟨rfl, trivial, hn⟩
  · exact ⟨rfl, trivial, hn⟩
  · exact ⟨rfl, h.userBucket hsome, hn⟩

/-- What a log kept beside a session needs of the requests and of the store's writes: `after`
moves the log by a request's answer, and `Agrees x t` says that the table `t` agrees with the
log `x`. Every write is taken on a store whose names can be keyed and whose chunks are owned,
with the bounds a request within the contents keeps. -/
structure LogRules (after : L → Request → Except SessionError Reply → L)
    (Agrees : L → Table → Prop) : Prop where
  after_error : ∀ x r e, after x r (.error e) = x
  after_of_not_mutates : ∀ x r out, r.mutates = false → after x r out = x
  after_createNamespace : ∀ x space a, after x (.createNamespace space) (.ok a) = x
  after_createBucket : ∀ x space name a, after x (.createBucket space name) (.ok a) = x
  createNamespace : ∀ {x : L} {db db' : Database} {name : Bytes} {hd : Nat},
    Agrees x db.table → db.Owned → db.createNamespace name = .ok (hd, db') →
      Agrees x db'.table
  createBucket : ∀ {x : L} {db db' : Database} {space name : Bytes} {hd : Nat},
    Agrees x db.table → db.Owned → db.createBucket space name = .ok (hd, db') →
      Agrees x db'.table
  deleteNamespace : ∀ {x : L} {db db' : Database} {n : Bytes},
    Agrees x db.table → n.length ≤ Keys.maxNameLength → db.deleteNamespace n = .ok db' →
      db.Leaves db' (Agrees (after x (.deleteNamespace n) (.ok .unit)))
  deleteBucket : ∀ {x : L} {db db' : Database} {n name : Bytes},
    Agrees x db.table → db.Owned → db.deleteBucket n name = .ok db' →
      db.Leaves db' (Agrees (after x (.deleteBucket n name) (.ok .unit)))
  putDocumentWithObjects : ∀ {x : L} {db db' : Database} {n key : Bytes} {doc : Document}
    {objects : List Resource}, Agrees x db.table → db.Owned →
      n.length ≤ Keys.maxNameLength → (∀ o ∈ objects, o.data.length < Nat.pow 2 64) →
      db.putDocumentWithObjects n key doc objects = .ok db' →
      db.Leaves db' (Agrees (after x (.putDocumentWithObjects n key doc objects) (.ok .unit)))
  putDocument : ∀ {x : L} {db db' : Database} {n key : Bytes} {doc : Document},
    Agrees x db.table → db.Owned → n.length ≤ Keys.maxNameLength →
      db.putDocument (BucketRef.documents.bucketIn n) key doc = .ok db' →
      db.Leaves db' (Agrees (after x (.putDocument n key doc) (.ok .unit)))
  put : ∀ {x : L} {db db' : Database} {n : Bytes} {r : BucketRef} {key value : Bytes}
    {info : Option Meta}, Agrees x db.table → db.Owned → n.length ≤ Keys.maxNameLength →
      r.Fits → r ≠ .chunks → value.length < Nat.pow 2 64 →
      db.put (r.bucketIn n) key value info = .ok db' →
      db.Leaves db' (Agrees (after x (.put n r key value info) (.ok .unit)))
  putValue : ∀ {x : L} {db db' : Database} {n : Bytes} {r : BucketRef} {key value : Bytes}
    {info : Option Meta}, Agrees x db.table → db.Owned → n.length ≤ Keys.maxNameLength →
      r.Fits → r ≠ .chunks → value.length < Nat.pow 2 64 →
      db.putValue (r.bucketIn n) value info = .ok (key, db') →
      db.Leaves db' (Agrees (after x (.putValue n r value info) (.ok (.bytes key))))
  delete : ∀ {x : L} {db db' : Database} {n : Bytes} {r : BucketRef} {key : Bytes},
    Agrees x db.table → db.Owned → n.length ≤ Keys.maxNameLength → r.Fits →
      r ≠ .chunks → db.delete (r.bucketIn n) key = .ok db' →
      db.Leaves db' (Agrees (after x (.delete n r key) (.ok .unit)))

/-- Carries out a request and moves the log kept beside the session by its answer. -/
def logTrack (after : L → Request → Except SessionError Reply → L) (p : L × Session)
    (r : Request) : L × Session :=
  (after p.1 r (p.2.step r).1, (p.2.step r).2)

/-- Keeping a log changes nothing about the run. -/
theorem foldl_logTrack_snd (x : L) (s : Session) (reqs : List Request) :
    (reqs.foldl (logTrack after) (x, s)).2 = s.runAll reqs := by
  induction reqs generalizing x s with
  | nil => rfl
  | cons r rs ih => exact ih _ (s.step r).2

/-- A request within the contents that asks for no change keeps every property of tables that
the store file keeps while the store is closed: reads leave the session's store as it was,
loading bucket names leaves its table, and a reopen or a dump closes the store and opens it
again on the same file. -/
theorem Tracks.step_of_not_mutates {P : Table → Prop}
    (h : s.Tracks (fun db => P db.table) P) {r : Request} (hr : r.staysInModel = true)
    (hm : r.mutates = false) : (s.step r).2.Tracks (fun db => P db.table) P := by
  rcases hstep : s.step r with ⟨out, s'⟩
  dsimp only
  cases r
  case loadBuckets space =>
    dsimp only [Session.step] at hstep
    split at hstep
    · obtain ⟨rfl, rfl⟩ := Prod.mk.inj hstep
      exact h
    split at hstep
    · obtain ⟨rfl, rfl⟩ := Prod.mk.inj hstep
      exact h
    next db hreq =>
      have hdb := requireDb_eq_ok hreq
      obtain ⟨-, rfl⟩ := Prod.mk.inj hstep
      have hP : P (db.loadBuckets space).2.table := by
        rw [(Database.loadBuckets_table space).2]
        exact (h.store db hdb).1
      exact h.with_db hdb hP (Database.loadBuckets_table space).1 fun _ => rfl
  case reopen o =>
    dsimp only [Session.step] at hstep
    obtain ⟨-, rfl⟩ := Prod.mk.inj hstep
    exact h.reopen (fun _ hdb => hdb) (fun _ _ ht => ht) (beq_iff_eq.1 hr)
  case dumpTable =>
    -- a dump reads the store file and writes it back as it was
    have hs' : s' = (s.rawAccess fun t => (Reply.dump t.entries, t)).2 :=
      (congrArg Prod.snd hstep).symm
    subst hs'
    refine h.rawAccess (fun _ hdb => hdb) (fun _ _ ht => ht) fun _ => ?_
    rfl
  case makeFile | replaceStoreFile | console | setRecord | deleteRecord =>
    simp [Request.staysInModel, Request.throughBuckets] at hr
  case createNamespace | createBucket | deleteNamespace | deleteBucket | putDocumentWithObjects |
      putDocument | put | putValue | delete =>
    simp [Request.mutates] at hm
  case listBuckets | storedBuckets | getDocument | get | getAt | getMeta | contains | count |
      scan | find | advance | release =>
    -- reads through a handle leave the session as it was; cursor requests change the cursors
    dsimp only [Session.step] at hstep
    split at hstep <;>
      (obtain ⟨-, rfl⟩ := Prod.mk.inj hstep
       exact h.of_frame rfl rfl rfl)
  case range =>
    dsimp only [Session.step] at hstep
    split at hstep
    · obtain ⟨-, rfl⟩ := Prod.mk.inj hstep
      exact h
    · split at hstep <;>
        (obtain ⟨-, rfl⟩ := Prod.mk.inj hstep
         exact h.of_frame rfl rfl rfl)
  -- the other requests answer from the session as it is
  all_goals
    obtain ⟨-, rfl⟩ := Prod.mk.inj hstep
    exact h

/-- A write through `Session.change` whose every success leaves a table agreeing with the log
the request's answer moves keeps the store agreeing with the moved log. -/
theorem Tracks.change_log (R : LogRules after Agrees)
    (h : s.Tracks (fun db => Agrees x db.table) (Agrees x)) {α : Type}
    {f : Database → Except StoreError (α × Database)} {g : α → Reply} {r : Request}
    (hok : ∀ db a db', s.db = some db → f db = .ok (a, db') →
      db.Leaves db' (Agrees (after x r (.ok (g a))))) :
    (s.change f).2.Tracks (fun db => Agrees (after x r ((s.change f).1.map g)) db.table)
      (Agrees (after x r ((s.change f).1.map g))) := by
  rcases hch : s.change f with ⟨res, s'⟩
  dsimp only
  rcases change_eq hch with ⟨e, rfl, rfl⟩ | ⟨db, a, db', hdb, hf, rfl, rfl⟩
  · rw [show (Except.error e : Except SessionError α).map g = .error e from rfl, R.after_error]
    exact h
  · obtain ⟨hro, hro', hagrees⟩ := hok db a db' hdb hf
    rw [show (Except.ok a : Except SessionError α).map g = .ok (g a) from rfl]
    -- the store was open for writing, so the file needs to keep nothing
    exact h.with_db hdb hagrees (hro'.trans hro.symm) fun hro₁ => absurd (hro.symm.trans hro₁)
      Bool.false_ne_true

/-- One request within the contents keeps the session's store agreeing with the log moved by
its answer. -/
theorem Tracks.logStep (R : LogRules after Agrees)
    (h : s.Tracks (fun db => Agrees x db.table) (Agrees x)) (hown : s.Owned) {r : Request}
    (hr : r.staysInModel = true) :
    (logTrack after (x, s) r).2.Tracks (fun db => Agrees (logTrack after (x, s) r).1 db.table)
      (Agrees (logTrack after (x, s) r).1) := by
  unfold logTrack
  dsimp only
  -- a request that asks for no change moves no log; the writes are taken one kind at a time
  cases hm : r.mutates
  · rw [R.after_of_not_mutates x r _ hm]
    exact h.step_of_not_mutates hr hm
  rcases hstep : s.step r with ⟨out, s'⟩
  dsimp only
  cases r
  case createNamespace space =>
    dsimp only [Session.step] at hstep
    split at hstep
    · obtain ⟨rfl, rfl⟩ := Prod.mk.inj hstep
      rw [R.after_error]
      exact h
    next db hreq =>
      have hdb := requireDb_eq_ok hreq
      split at hstep
      · obtain ⟨rfl, rfl⟩ := Prod.mk.inj hstep
        rw [R.after_error]
        exact h
      next hd db' hcr =>
        -- a registration moves no log, and keeps the table agreeing
        obtain ⟨rfl, rfl⟩ := Prod.mk.inj hstep
        rw [R.after_createNamespace]
        have hagrees := R.createNamespace (h.store db hdb).1 (hown.db db hdb) hcr
        have hro : db'.readOnly = db.readOnly := Database.createNamespace_readOnly hcr
        -- the session's namespace handles are not part of the tracking
        exact (h.with_db hdb hagrees hro fun _ => rfl).of_frame rfl rfl rfl
  case createBucket space name =>
    dsimp only [Session.step] at hstep
    split at hstep
    · obtain ⟨rfl, rfl⟩ := Prod.mk.inj hstep
      rw [R.after_error]
      exact h
    next db hreq =>
      obtain ⟨_, -, hreq⟩ := Except.bind_eq_ok.1 hreq
      have hdb := requireDb_eq_ok hreq
      split at hstep
      · obtain ⟨rfl, rfl⟩ := Prod.mk.inj hstep
        rw [R.after_error]
        exact h
      next hd db' hcr =>
        obtain ⟨rfl, rfl⟩ := Prod.mk.inj hstep
        rw [R.after_createBucket]
        have hagrees := R.createBucket (h.store db hdb).1 (hown.db db hdb) hcr
        have hro : db'.readOnly = db.readOnly := Database.createBucket_readOnly hcr
        exact (h.with_db hdb hagrees hro fun _ => rfl).of_frame rfl rfl rfl
  case deleteNamespace space =>
    dsimp only [Session.step] at hstep
    obtain ⟨rfl, rfl⟩ := Prod.mk.inj hstep
    refine h.change_log R fun db a db' hdb hf => ?_
    have hd := Except.eq_ok_of_unit_pair hf
    -- only a registered namespace is emptied, and registered names can be keyed
    obtain ⟨sp, hsp, -⟩ := Database.deleteNamespace_eq_ok hd
    have hn := Database.space?_eq_some hsp
    exact R.deleteNamespace (h.store db hdb).1 (hn.2 ▸ (hown.db db hdb).spaces sp hn.1) hd
  case deleteBucket space name =>
    dsimp only [Session.step] at hstep
    split at hstep
    · obtain ⟨rfl, rfl⟩ := Prod.mk.inj hstep
      rw [R.after_error]
      exact h
    · obtain ⟨rfl, rfl⟩ := Prod.mk.inj hstep
      refine h.change_log R fun db a db' hdb hf => ?_
      exact R.deleteBucket (h.store db hdb).1 (hown.db db hdb) (Except.eq_ok_of_unit_pair hf)
  case putDocumentWithObjects space key doc objects =>
    dsimp only [Session.step] at hstep
    split at hstep
    · obtain ⟨rfl, rfl⟩ := Prod.mk.inj hstep
      rw [R.after_error]
      exact h
    next hreq =>
      have hn := hown.requireSpace hreq
      -- every object's value is short enough for its meta to keep its length
      have hfit : ∀ o ∈ objects, o.data.length < Nat.pow 2 64 := fun o ho => by
        simpa using List.all_eq_true.1 hr o ho
      obtain ⟨rfl, rfl⟩ := Prod.mk.inj hstep
      refine h.change_log R fun db a db' hdb hf => ?_
      exact R.putDocumentWithObjects (h.store db hdb).1 (hown.db db hdb) hn hfit
        (Except.eq_ok_of_unit_pair hf)
  case putDocument space key doc =>
    dsimp only [Session.step] at hstep
    split at hstep
    · obtain ⟨rfl, rfl⟩ := Prod.mk.inj hstep
      rw [R.after_error]
      exact h
    next b hb =>
      obtain ⟨rfl, -, hn⟩ := hown.bucketOf_fits hb
      obtain ⟨rfl, rfl⟩ := Prod.mk.inj hstep
      refine h.change_log R fun db a db' hdb hf => ?_
      exact R.putDocument (h.store db hdb).1 (hown.db db hdb) hn (Except.eq_ok_of_unit_pair hf)
  case put space bref key value info =>
    -- a request within the contents names no chunk bucket, and a value whose length fits
    simp only [Request.staysInModel, Bool.and_eq_true, bne_iff_ne, ne_eq,
      decide_eq_true_eq] at hr
    dsimp only [Session.step] at hstep
    split at hstep
    · obtain ⟨rfl, rfl⟩ := Prod.mk.inj hstep
      rw [R.after_error]
      exact h
    next b hb =>
      obtain ⟨rfl, hfit, hn⟩ := hown.bucketOf_fits hb
      obtain ⟨rfl, rfl⟩ := Prod.mk.inj hstep
      refine h.change_log R fun db a db' hdb hf => ?_
      exact R.put (h.store db hdb).1 (hown.db db hdb) hn hfit hr.1 hr.2
        (Except.eq_ok_of_unit_pair hf)
  case putValue space bref value info =>
    simp only [Request.staysInModel, Bool.and_eq_true, bne_iff_ne, ne_eq,
      decide_eq_true_eq] at hr
    dsimp only [Session.step] at hstep
    split at hstep
    · obtain ⟨rfl, rfl⟩ := Prod.mk.inj hstep
      rw [R.after_error]
      exact h
    next b hb =>
      obtain ⟨rfl, hfit, hn⟩ := hown.bucketOf_fits hb
      obtain ⟨rfl, rfl⟩ := Prod.mk.inj hstep
      refine h.change_log R fun db a db' hdb hf => ?_
      exact R.putValue (h.store db hdb).1 (hown.db db hdb) hn hfit hr.1 hr.2 hf
  case delete space bref key =>
    simp only [Request.staysInModel, Request.throughBuckets, bne_iff_ne, ne_eq] at hr
    dsimp only [Session.step] at hstep
    split at hstep
    · obtain ⟨rfl, rfl⟩ := Prod.mk.inj hstep
      rw [R.after_error]
      exact h
    next b hb =>
      obtain ⟨rfl, hfit, hn⟩ := hown.bucketOf_fits hb
      obtain ⟨rfl, rfl⟩ := Prod.mk.inj hstep
      refine h.change_log R fun db a db' hdb hf => ?_
      exact R.delete (h.store db hdb).1 (hown.db db hdb) hn hfit hr (Except.eq_ok_of_unit_pair hf)
  all_goals simp [Request.mutates] at hm

/-- Along a run within the contents, the session's store agrees with the log the run kept, and
the session stays owned. -/
theorem Tracks.logRun (R : LogRules after Agrees)
    (h : s.Tracks (fun db => Agrees x db.table) (Agrees x)) (hown : s.Owned)
    {reqs : List Request} (hreqs : ∀ r ∈ reqs, r.staysInModel = true) :
    (reqs.foldl (logTrack after) (x, s)).2.Tracks
        (fun db => Agrees (reqs.foldl (logTrack after) (x, s)).1 db.table)
        (Agrees (reqs.foldl (logTrack after) (x, s)).1) ∧
      (reqs.foldl (logTrack after) (x, s)).2.Owned := by
  induction reqs generalizing x s with
  | nil => exact ⟨h, hown⟩
  | cons r rs ih =>
    have hr := hreqs r List.mem_cons_self
    have hown₁ : (logTrack after (x, s) r).2.Owned :=
      hown.step (Request.throughBuckets_of_staysInModel hr)
    exact ih (h.logStep R hown hr) hown₁ fun r' hr' => hreqs r' (List.mem_cons_of_mem _ hr')

end Session

end ArchiveStore
