import ArchiveStore.Proofs.Ownership.Stores
import ArchiveStore.Session.Run
/-!
# Chunk ownership along every run of a session

A session that uses the store only through its buckets (`Request.throughBuckets`: no raw
access to the store file, no other file written, no run of the inspection tool, no direct
write to a chunk bucket) keeps `Session.Owned`: the store files and the open store have their
chunks owned, and every namespace and user bucket it holds a handle on has a name of at most
255 bytes, which the store checked when the handle was made.

`Session.Owned.step` is the step lemma, one case per kind of request; `Session.Owned.runAll`
the run lemma. `chunks_owned_along_runs` is the result: along every run of a fresh session,
in the open store and in every store file, every chunk an entry lists exists, no chunk is
listed twice, every chunk entry is listed by an entry, and every listed chunk is a sequence
number below the chunk counter.
-/

namespace ArchiveStore

/-- Whether a request uses the store only through its buckets: no raw access to the store
file, no other file written, no run of the inspection tool, and no direct write to a chunk
bucket. -/
def Request.throughBuckets : Request → Bool
  | .put _ b _ _ _ | .putValue _ b _ _ | .delete _ b _ => b != .chunks
  | .makeFile .. | .replaceStoreFile _ | .console _ | .setRecord .. | .deleteRecord _ => false
  | _ => true

namespace Session

/-- The session after a list of requests, carried out in order. -/
def runAll (s : Session) (reqs : List Request) : Session :=
  reqs.foldl (fun s r => (s.step r).2) s

/-- What a session keeps along every run that uses the store only through its buckets: the
store files and the open store are owned, and every namespace and user bucket it holds a handle
on is named by at most 255 bytes. -/
structure Owned (s : Session) : Prop where
  host : s.host.StoresOwned
  db : ∀ db, s.db = some db → db.Owned
  spaces : ∀ p ∈ s.spaces, p.1.length ≤ Keys.maxNameLength
  buckets : ∀ p ∈ s.buckets, p.1.2.length ≤ Keys.maxNameLength

variable {s : Session}

/-- A key held in a list of handles is one of its keys. -/
theorem mem_of_lookup_isSome {κ α : Type} [BEq κ] [LawfulBEq κ] {xs : List (κ × α)} {k : κ}
    (h : (xs.lookup k).isSome) : ∃ p ∈ xs, p.1 = k := by
  obtain ⟨p, hp, hk⟩ := List.lookup_isSome_iff.1 h
  exact ⟨p, hp, (beq_iff_eq.1 hk).symm⟩

/-- A namespace the session holds a handle on has a keyable name. -/
theorem Owned.requireSpace (h : s.Owned) {space : Bytes} {u : Unit}
    (hreq : s.requireSpace space = .ok u) : space.length ≤ Keys.maxNameLength := by
  unfold Session.requireSpace at hreq
  split at hreq
  next hsome =>
    obtain ⟨p, hp, rfl⟩ := mem_of_lookup_isSome hsome
    exact h.spaces p hp
  · cases hreq

/-- A user bucket the session holds a handle on has a keyable name. -/
theorem Owned.userBucket (h : s.Owned) {space name : Bytes}
    (hsome : (s.buckets.lookup (space, name)).isSome) : name.length ≤ Keys.maxNameLength := by
  obtain ⟨p, hp, hkey⟩ := mem_of_lookup_isSome hsome
  have := h.buckets p hp
  rwa [hkey] at this

/-- The bucket a request names needs a handle on its namespace, and a user bucket a handle of
its own; it is the namespace's bucket of that kind and name. -/
theorem bucketOf_eq_ok {space : Bytes} {r : BucketRef} {b : Bucket}
    (hb : s.bucketOf space r = .ok b) :
    s.requireSpace space = .ok () ∧
      (r = .documents ∧ b = Bucket.documents (Space.keyPrefix space) ∨
        r = .objects ∧ b = Bucket.objects (Space.keyPrefix space) ∨
        r = .chunks ∧ b = Bucket.chunks (Space.keyPrefix space) ∨
        ∃ name, r = .user name ∧ (s.buckets.lookup (space, name)).isSome ∧
          b = Bucket.user (Space.keyPrefix space) name) := by
  unfold Session.bucketOf at hb
  obtain ⟨⟨⟩, hreq, hb⟩ := Except.bind_eq_ok.1 hb
  refine ⟨hreq, ?_⟩
  cases r with
  | documents => cases hb; exact .inl ⟨rfl, rfl⟩
  | objects => cases hb; exact .inr (.inl ⟨rfl, rfl⟩)
  | chunks => cases hb; exact .inr (.inr (.inl ⟨rfl, rfl⟩))
  | user name =>
    dsimp only at hb
    split at hb
    next hsome =>
      cases hb
      exact .inr (.inr (.inr ⟨name, rfl, hsome, rfl⟩))
    · cases hb

/-- The bucket a request names, when it is not a chunk bucket, is a data bucket of a namespace
with a keyable name. -/
theorem Owned.bucketOf (h : s.Owned) {space : Bytes} {r : BucketRef} {b : Bucket}
    (hb : s.bucketOf space r = .ok b) (hr : r ≠ .chunks) :
    b.IsData (Keys.namespacePrefix space) ∧ space.length ≤ Keys.maxNameLength := by
  obtain ⟨hreq, hcases⟩ := bucketOf_eq_ok hb
  refine ⟨?_, h.requireSpace hreq⟩
  rcases hcases with ⟨-, rfl⟩ | ⟨-, rfl⟩ | ⟨rfl, -⟩ | ⟨name, -, hsome, rfl⟩
  · exact .inl rfl
  · exact .inr (.inl rfl)
  · exact absurd rfl hr
  · exact .inr (.inr ⟨name, h.userBucket hsome, rfl⟩)

/-- The open store a session requires is its store. -/
theorem requireDb_eq_ok {db : Database} (h : s.requireDb = .ok db) : s.db = some db := by
  unfold requireDb at h
  split at h
  next db' hdb =>
    cases h
    exact hdb
  · cases h

/-- A change of the open store that keeps it owned keeps the session owned. -/
theorem Owned.change (h : s.Owned) {α : Type} {f : Database → Except StoreError (α × Database)}
    (hf : ∀ db a db', db.Owned → f db = .ok (a, db') → db'.Owned) : (s.change f).2.Owned := by
  unfold Session.change
  split
  · exact h
  next db hdb =>
    split
    next a db' hok =>
      refine ⟨h.host, fun db'' hdb'' => ?_, h.spaces, h.buckets⟩
      cases hdb''
      exact hf db a db' (h.db db (requireDb_eq_ok hdb)) hok
    · exact h

/-- Closing the store writes an owned table back and drops every handle. -/
theorem Owned.close (h : s.Owned) : s.close.Owned := by
  refine ⟨?_, (fun _ hdb => by cases hdb), (fun _ hp => by cases hp), (fun _ hp => by cases hp)⟩
  unfold Session.close
  split
  next db hdb => exact Database.closeOn_owned h.host (h.db db hdb).table
  · exact h.host

/-- Opening the store again keeps the session owned. -/
theorem Owned.reopenHere (h : s.Owned) {ro : Bool} :
    (s.reopenHere ro).1.Owned := by
  unfold Session.reopenHere
  split
  next db host hopen =>
    obtain ⟨hdb, hhost⟩ := Database.openOn_owned h.host hopen
    refine ⟨hhost, fun db' hdb' => ?_, h.spaces, h.buckets⟩
    cases hdb'
    exact hdb
  · exact ⟨h.host, (fun _ hdb => by cases hdb), h.spaces, h.buckets⟩

/-- Closing the store and opening it with new options keeps the session owned. -/
theorem Owned.reopen (h : s.Owned) (o : OpenOptions) : (s.reopen o).1.Owned := by
  unfold Session.reopen
  have hc := h.close
  exact (⟨hc.host, hc.db, hc.spaces, hc.buckets⟩ :
    Owned { s.close with options := o, dataDir := Path.join Host.scenarioRoot o.subdir }).reopenHere

/-- Raw access to the store file that keeps its table owned keeps the session owned. -/
theorem Owned.rawAccess (h : s.Owned) {α : Type} {act : Table → α × Table}
    (hact : ∀ t, t.ChunksOwned → (act t).2.ChunksOwned) : (s.rawAccess act).2.Owned := by
  have hc := h.close
  unfold Session.rawAccess
  dsimp only
  split
  · exact hc.reopenHere
  next t hopen =>
    have ht := hc.host.openStoreFile hopen
    exact (⟨hc.host.saveStoreFile (hact t ht), hc.db, hc.spaces, hc.buckets⟩ :
      Owned { s.close with host := s.close.host.saveStoreFile _ (act t).2 }).reopenHere

/-- A session that differs only in what no invariant reads, its cursors, is owned alike. -/
theorem Owned.of_frame (h : s.Owned) {s' : Session} (hhost : s'.host = s.host)
    (hdb : s'.db = s.db) (hsp : s'.spaces = s.spaces) (hbk : s'.buckets = s.buckets) :
    s'.Owned :=
  ⟨hhost ▸ h.host, hdb ▸ h.db, hsp ▸ h.spaces, hbk ▸ h.buckets⟩

/-- A handle set in a list is the new one or was there. -/
theorem mem_setKey {κ α : Type} [BEq κ] {xs : List (κ × α)} {k : κ} {a : α} {p : κ × α}
    (hp : p ∈ setKey xs k a) : p ∈ xs ∨ p = (k, a) := by
  unfold setKey at hp
  rcases List.mem_append.1 hp with hp | hp
  · exact .inl (List.mem_filter.1 hp).1
  · exact .inr (List.mem_singleton.1 hp)

/-- One request that goes through buckets keeps the session owned. -/
theorem Owned.step (h : s.Owned) {r : Request} (hr : r.throughBuckets = true) :
    (s.step r).2.Owned := by
  cases r
  case createNamespace space =>
    dsimp only [Session.step]
    split
    · exact h
    next db hdb =>
      split
      · exact h
      next hd db' hc =>
        -- the new handle is for a name the store checked before registering it
        obtain ⟨hdb', hname⟩ := (h.db db (requireDb_eq_ok hdb)).createNamespace hc
        refine ⟨h.host, fun d hd' => by cases hd'; exact hdb', fun p hp => ?_, h.buckets⟩
        rcases mem_setKey hp with hp | rfl
        · exact h.spaces p hp
        · exact hname
  case deleteNamespace space =>
    dsimp only [Session.step]
    exact h.change fun db a db' hdb hf => by
      have hd := Except.eq_ok_of_unit_pair hf
      exact hdb.deleteNamespace hd
  case reopen o =>
    dsimp only [Session.step]
    exact h.reopen o
  case createBucket space name =>
    dsimp only [Session.step]
    split
    · exact h
    next db hdb =>
      split
      · exact h
      next hd db' hc =>
        obtain ⟨_, -, hdb⟩ := Except.bind_eq_ok.1 hdb
        -- as for namespaces: the store checked the bucket's name
        obtain ⟨hdb', hname⟩ := (h.db db (requireDb_eq_ok hdb)).createBucket hc
        refine ⟨h.host, fun d hd' => by cases hd'; exact hdb', h.spaces, fun p hp => ?_⟩
        rcases mem_setKey hp with hp | rfl
        · exact h.buckets p hp
        · exact hname
  case deleteBucket space name =>
    dsimp only [Session.step]
    split
    · exact h
    · exact h.change fun db a db' hdb hf => by
        have hd := Except.eq_ok_of_unit_pair hf
        exact hdb.deleteBucket hd
  case loadBuckets space =>
    dsimp only [Session.step]
    split
    · exact h
    split
    · exact h
    next db hdb =>
      refine ⟨h.host, fun d hd' => ?_, h.spaces, h.buckets⟩
      cases hd'
      exact (h.db db (requireDb_eq_ok hdb)).loadBuckets space
  case putDocumentWithObjects space key doc objects =>
    dsimp only [Session.step]
    split
    · exact h
    next u hreq =>
      exact h.change fun db a db' hdb hf => by
        have hd := Except.eq_ok_of_unit_pair hf
        exact hdb.putDocumentWithObjects (h.requireSpace hreq) hd
  case putDocument space key doc =>
    dsimp only [Session.step]
    split
    · exact h
    next b hb =>
      obtain ⟨hdata, hn⟩ := h.bucketOf hb (by decide)
      exact h.change fun db a db' hdb hf => by
        have hd := Except.eq_ok_of_unit_pair hf
        exact hdb.putDocument hdata hn hd
  case put space r key value info =>
    dsimp only [Session.step]
    split
    · exact h
    next b hb =>
      obtain ⟨hdata, hn⟩ := h.bucketOf hb (by simpa [Request.throughBuckets] using hr)
      exact h.change fun db a db' hdb hf => by
        have hd := Except.eq_ok_of_unit_pair hf
        exact hdb.put hdata hn hd
  case putValue space r value info =>
    dsimp only [Session.step]
    split
    · exact h
    next b hb =>
      obtain ⟨hdata, hn⟩ := h.bucketOf hb (by simpa [Request.throughBuckets] using hr)
      exact h.change fun db a db' hdb hf => hdb.putValue hdata hn hf
  case delete space r key =>
    dsimp only [Session.step]
    split
    · exact h
    next b hb =>
      obtain ⟨hdata, hn⟩ := h.bucketOf hb (by simpa [Request.throughBuckets] using hr)
      exact h.change fun db a db' hdb hf => by
        have hd := Except.eq_ok_of_unit_pair hf
        exact hdb.delete hdata hn hd
  case dumpTable =>
    exact h.rawAccess fun t ht => ht
  case makeFile | replaceStoreFile | console | setRecord | deleteRecord =>
    simp [Request.throughBuckets] at hr
  case listBuckets | storedBuckets | getDocument | get | getAt | getMeta | contains | count |
      scan =>
    -- reads through a handle leave the session as it was
    dsimp only [Session.step]
    split <;> exact h
  case find | advance | release =>
    -- cursor requests change the cursors only
    dsimp only [Session.step]
    split
    · exact h
    · exact h.of_frame rfl rfl rfl rfl
  case range =>
    dsimp only [Session.step]
    split
    · exact h
    · split
      · exact h
      · exact h.of_frame rfl rfl rfl rfl
  -- the other requests answer from the session as it is
  all_goals exact h

/-- A fresh session is owned, whether the store opened or not. -/
theorem Owned.start (ro : Bool) : (Session.start ro).1.Owned := by
  unfold Session.start
  refine Owned.reopenHere ⟨?_, (fun _ hdb => by cases hdb), (fun _ hp => by cases hp),
    (fun _ hp => by cases hp)⟩
  -- a fresh machine holds one directory and no file
  intro loc t hmem
  simp [Host.fresh] at hmem

/-- A run of requests that go through buckets keeps the session owned. -/
theorem Owned.runAll (h : s.Owned) {reqs : List Request}
    (hreqs : ∀ r ∈ reqs, r.throughBuckets = true) : (s.runAll reqs).Owned := by
  induction reqs generalizing s with
  | nil => exact h
  | cons r rs ih =>
    exact ih (h.step (hreqs r List.mem_cons_self)) fun r' hr' =>
      hreqs r' (List.mem_cons_of_mem _ hr')

end Session

/-- Along every run of a fresh session whose requests go through buckets, every namespace's
chunks are owned by its entries, in the open store and in every store file: each chunk an
entry lists exists, no chunk is listed twice, every chunk entry is listed by an entry, and
every listed chunk is a sequence number below the chunk counter. -/
theorem chunks_owned_along_runs (readOnly : Bool) (reqs : List Request)
    (hreqs : ∀ r ∈ reqs, r.throughBuckets = true) :
    let s := (Session.start readOnly).1.runAll reqs
    (∀ db, s.db = some db → db.table.ChunksOwned) ∧
      ∀ loc t, (loc, Node.file (.store t)) ∈ s.host.nodes → t.ChunksOwned := by
  intro s
  have h := (Session.Owned.start readOnly).runAll hreqs
  exact ⟨fun db hdb => (h.db db hdb).table, h.host⟩

/-- A run that splits a value into chunks, overwrites it, appends and deletes, reopens the
store and clears the namespace goes through buckets only. -/
theorem chunks_owned_sample_run :
    let reqs := [Request.createNamespace (Bytes.ofString "ns"),
      .put (Bytes.ofString "ns") .objects (Bytes.ofString "a") (Bytes.ofString "abcdef")
        (some ⟨"", 4, 0, []⟩),
      .put (Bytes.ofString "ns") .objects (Bytes.ofString "a") (Bytes.ofString "xyz")
        (some ⟨"", 2, 0, []⟩),
      .putValue (Bytes.ofString "ns") .documents (Bytes.ofString "abcde") (some ⟨"", 1, 0, []⟩),
      .delete (Bytes.ofString "ns") .objects (Bytes.ofString "a"),
      .reopen {},
      .deleteNamespace (Bytes.ofString "ns")]
    (∀ r ∈ reqs, r.throughBuckets = true) ∧
      let s := (Session.start false).1.runAll reqs
      (∀ db, s.db = some db → db.table.ChunksOwned) ∧
        ∀ loc t, (loc, Node.file (.store t)) ∈ s.host.nodes → t.ChunksOwned := by
  intro reqs
  have hreqs : ∀ r ∈ reqs, r.throughBuckets = true := by decide
  exact ⟨hreqs, chunks_owned_along_runs false reqs hreqs⟩

end ArchiveStore
