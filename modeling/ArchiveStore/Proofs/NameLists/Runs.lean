import ArchiveStore.Proofs.NameLists.Registry
import ArchiveStore.Proofs.Cursor.Held
import ArchiveStore.Proofs.Session.Home
/-!
# The name lists along every run of a session

A session works with the store of its own directory, and may close it and open it again, for
writing or for reading only. The names created along a run (`Session.noteRun`: a request
counts when it succeeded on a store open for writing) decide the stored lists at every step,
whether the store is open or closed:

* `Host.ListsAt host c`: the store file holds a store whose table stores `c`'s lists, or no
  file holds a store and the lists are empty (`Host.HomeHolds` of the lists).
* `Session.ListsAgree c s`: the session tracks the lists (`Session.Tracks`, with the open store
  agreeing with `c`, `Database.Agrees`), and every namespace handle the session holds is the
  handle of the store's registration. Opening, closing and reopening the store hand the lists
  over as `Session.Tracks` does.

`Session.ListsAgree.step` is the step lemma, one case per kind of request, and
`Session.ListsAgree.run` the run lemma. `name_lists_follow_creations` is the result.
-/

namespace ArchiveStore

/-- Whether a request is one of the store's own operations on the store of the session's
directory: no raw access to the store file, no other file written, no run of the inspection
tool, and reopening only in the same directory. -/
def Request.inOneDirectory : Request → Bool
  | .reopen o => o.subdir == ""
  | .makeFile .. | .replaceStoreFile _ | .console _ | .dumpTable | .setRecord .. | .deleteRecord _ =>
    false
  | _ => true

/-- What a request that succeeded on a store open for writing created: a namespace, a user
bucket, or the emptying of a namespace; the other requests create nothing. -/
def Creations.note (c : Creations) : Request → Creations
  | .createNamespace space => c.addSpace space
  | .createBucket space name => c.addBucket space name
  | .deleteNamespace space => c.clearSpace space
  | _ => c

namespace Session

/-- Whether the session's store is open for writing. -/
def writable (s : Session) : Bool :=
  match s.db with
  | some db => !db.readOnly
  | none => false

/-- A request carried out, with what it created noted: a request counts when it succeeded on a
store open for writing. -/
def noteStep (p : Creations × Session) (r : Request) : Creations × Session :=
  (if (p.2.step r).1.isOk && p.2.writable then p.1.note r else p.1, (p.2.step r).2)

/-- A run of requests from a session, with the names it created. -/
def noteRun (s : Session) (reqs : List Request) : Creations × Session :=
  reqs.foldl noteStep (Creations.empty, s)

/-- Noting what a run created changes nothing about the run. -/
theorem foldl_noteStep_snd (c : Creations) (s : Session) (reqs : List Request) :
    (reqs.foldl noteStep (c, s)).2 = s.runAll reqs := by
  induction reqs generalizing c s with
  | nil => rfl
  | cons r rs ih => exact ih _ (s.step r).2

theorem writable_of_db {s : Session} {db : Database} (hdb : s.db = some db) :
    s.writable = !db.readOnly := by
  rw [writable, hdb]

end Session

/-! ## The store file -/

namespace Host

variable {host host' : Host} {c : Creations}

/-- The host keeps the name lists of `c`: the store file of the session's directory holds a
store whose table stores them, or no file holds a store and the lists are empty. -/
def ListsAt (host : Host) (c : Creations) : Prop :=
  (∃ t, host.stat StoreFile.home = .ok (.file (.store t)) ∧ t.Lists c) ∨
    (Table.empty.Lists c ∧ ∀ loc t, (loc, Node.file (.store t)) ∉ host.nodes)

/-- The lists are what the host keeps of the store of the session's directory. -/
theorem listsAt_iff : host.ListsAt c ↔ host.HomeHolds (Table.Lists · c) := Iff.rfl

end Host

/-! ## Sessions -/

namespace Session

variable {s s' : Session} {c : Creations}

/-- What a session keeps along a run in its own directory that created the names `c`. -/
structure ListsAgree (c : Creations) (s : Session) : Prop where
  dir : StoreFile.pathIn s.dataDir = StoreFile.home
  store : ∀ db, s.db = some db → db.Agrees c ∧ (db.readOnly = true → s.host.ListsAt c) ∧
    (db.readOnly = false → ∃ t, s.host.stat StoreFile.home = .ok (.file (.store t)))
  closed : s.db = none → s.host.ListsAt c
  handles : ∀ n hd, s.spaces.lookup n = some hd →
    ∃ db sp, s.db = some db ∧ db.space? n = some sp ∧ sp.handle = hd

/-- A session that differs only in what the agreement does not read keeps it. -/
theorem ListsAgree.of_frame (h : s.ListsAgree c) (hhost : s'.host = s.host) (hdb : s'.db = s.db)
    (hsp : s'.spaces = s.spaces) (hdir : s'.dataDir = s.dataDir) : s'.ListsAgree c :=
  ⟨hdir ▸ h.dir, hhost ▸ hdb ▸ h.store, hhost ▸ hdb ▸ h.closed, hsp ▸ hdb ▸ h.handles⟩

/-- The agreement tracks the lists in the open store and in its file. -/
theorem ListsAgree.tracks (h : s.ListsAgree c) : s.Tracks (Database.Agrees c) (Table.Lists · c) :=
  ⟨h.dir, h.store, h.closed⟩

/-- Tracking the lists, with every handle held being a registration's, is the agreement. -/
theorem ListsAgree.of_tracks (h : s.Tracks (Database.Agrees c) (Table.Lists · c))
    (hh : ∀ n hd, s.spaces.lookup n = some hd →
      ∃ db sp, s.db = some db ∧ db.space? n = some sp ∧ sp.handle = hd) : s.ListsAgree c :=
  ⟨h.dir, h.store, h.closed, hh⟩

/-- A change of the open store that keeps the registrations' handles, and agrees with `c'`,
which differs from `c` only on a store open for writing. -/
theorem ListsAgree.with_db (h : s.ListsAgree c) {db db' : Database} (hdb : s.db = some db)
    {c' : Creations} (hagr : db'.Agrees c') (hro : db'.readOnly = db.readOnly)
    (hc' : db.readOnly = true → c' = c) (hkeep : db.KeepsHandles db') :
    ({ s with db := some db' } : Session).ListsAgree c' := by
  refine .of_tracks (h.tracks.with_db hdb hagr hro fun hro' => by rw [hc' hro']) ?_
  -- a handle held was a registration's, which the change keeps
  intro n hd hn
  obtain ⟨d, sp, hd', hsp, hh⟩ := h.handles n hd hn
  rw [hdb] at hd'
  cases hd'
  obtain ⟨sp', hsp', hh'⟩ := hkeep n sp hsp
  exact ⟨db', sp', rfl, hsp', hh'.trans hh⟩

/-- A request that succeeded counts exactly when the store it ran on is open for writing. -/
theorem ite_writable {db : Database} (hdb : s.db = some db) {α : Type} (a : α) (x : Creations) :
    (if (Except.ok a : Except SessionError α).isOk && s.writable then x else c) =
      if db.readOnly then c else x := by
  rw [writable_of_db hdb]
  cases db.readOnly <;> rfl

/-- A change through `Session.change` that keeps the agreement, moved to `cn` on a store open
for writing. -/
theorem ListsAgree.change (h : s.ListsAgree c) {α : Type}
    {f : Database → Except StoreError (α × Database)} {cn : Creations}
    (hf : ∀ db a db', s.db = some db → f db = .ok (a, db') →
      db'.Agrees (if db.readOnly then c else cn) ∧ db'.readOnly = db.readOnly ∧
        db.KeepsHandles db') :
    (s.change f).2.ListsAgree (if (s.change f).1.isOk && s.writable then cn else c) := by
  rcases hch : s.change f with ⟨res, s'⟩
  dsimp only
  rcases change_eq hch with ⟨e, rfl, rfl⟩ | ⟨db, a, db', hdb, hok, rfl, rfl⟩
  · exact h
  · obtain ⟨hagr, hro, hkeep⟩ := hf db a db' hdb hok
    rw [ite_writable hdb]
    exact h.with_db hdb hagr hro (fun hro' => by rw [if_pos hro']) hkeep

/-- A write through `Session.change` that keeps the name lists and the registrations keeps the
agreement. -/
theorem ListsAgree.change_keeps (h : s.ListsAgree c) {α : Type}
    {f : Database → Except StoreError (α × Database)}
    (hf : ∀ db a db', s.db = some db → f db = .ok (a, db') → db.KeepsLists db') :
    (s.change f).2.ListsAgree c := by
  have h' : (s.change f).2.ListsAgree (if (s.change f).1.isOk && s.writable then c else c) :=
    h.change fun db a db' hdb hok => by
      have hk := hf db a db' hdb hok
      rw [ite_self]
      exact ⟨(h.store db hdb).1.of_keepsLists hk, hk.readOnly, .of_spaces hk.spaces⟩
  rwa [ite_self] at h'

/-- Closing the store leaves the host keeping the lists. -/
theorem ListsAgree.close (h : s.ListsAgree c) : s.close.host.ListsAt c :=
  h.tracks.close fun _ hagr => hagr.lists

/-- Opening the store of the session's directory, from a session with no store and no handle,
keeps the lists the host keeps. -/
theorem ListsAgree.reopenHere (hdir : StoreFile.pathIn s.dataDir = StoreFile.home)
    (hsp : s.spaces = []) (hl : s.host.ListsAt c) (ro : Bool) :
    (s.reopenHere ro).1.ListsAgree c := by
  refine .of_tracks (Tracks.reopenHere hdir hl (fun _ _ ht => .opened ht _) ro) ?_
  intro n hd hn
  rw [reopenHere_spaces, hsp] at hn
  cases hn

/-- Closing the store and opening it again in the same directory keeps the agreement. -/
theorem ListsAgree.reopen (h : s.ListsAgree c) {o : OpenOptions} (ho : o.subdir = "") :
    (s.reopen o).1.ListsAgree c := by
  unfold Session.reopen
  dsimp only
  rw [ho]
  refine ListsAgree.reopenHere ?_ rfl ?_ _
  · exact StoreFile.pathIn_join_empty
  · exact h.close

/-- A fresh session agrees with nothing created, whether its store opened or not. -/
theorem ListsAgree.start (ro : Bool) : (Session.start ro).1.ListsAgree Creations.empty :=
  ListsAgree.reopenHere rfl rfl (Host.listsAt_iff.2 (.fresh Table.Lists.empty)) ro

/-- Holding the handle of a registration of the open store keeps the agreement. -/
theorem ListsAgree.setHandle (h : s.ListsAgree c) {db : Database} (hdb : s.db = some db)
    {n : Bytes} {sp : Space} {hd : Nat} (hsp : db.space? n = some sp) (hh : sp.handle = hd) :
    ({ s with spaces := setKey s.spaces n hd } : Session).ListsAgree c := by
  refine ⟨h.dir, h.store, h.closed, fun m k hm => ?_⟩
  rw [lookup_setKey] at hm
  split at hm
  next heq =>
    cases hm
    exact ⟨db, sp, hdb, heq ▸ hsp, hh⟩
  · exact h.handles m k hm

/-- A namespace the session holds a handle on is registered in the open store, under a name that
can be keyed. -/
theorem ListsAgree.requireSpace (h : s.ListsAgree c) {space : Bytes} {u : Unit}
    (hreq : s.requireSpace space = .ok u) :
    ∃ db sp, s.db = some db ∧ db.space? space = some sp ∧ Keys.ValidName space := by
  unfold Session.requireSpace at hreq
  split at hreq
  next hsome =>
    obtain ⟨hd, hl⟩ := Option.isSome_iff_exists.1 hsome
    obtain ⟨db, sp, hdb, hsp, -⟩ := h.handles space hd hl
    exact ⟨db, sp, hdb, hsp, (h.store db hdb).1.valid_of_space? hsp⟩
  · cases hreq

/-- The bucket a request names lies in a namespace the session holds a handle on. -/
theorem bucketOf_space {space : Bytes} {r : BucketRef} {b : Bucket}
    (hb : s.bucketOf space r = .ok b) :
    s.requireSpace space = .ok () ∧ b.space = Keys.namespacePrefix space := by
  obtain ⟨hreq, hcases⟩ := bucketOf_eq_ok hb
  refine ⟨hreq, ?_⟩
  -- every bucket of the namespace lies under its prefix
  rcases hcases with ⟨-, rfl⟩ | ⟨-, rfl⟩ | ⟨-, rfl⟩ | ⟨-, -, -, rfl⟩ <;> rfl

/-- A step that failed, or that creates nothing, notes nothing. -/
theorem ListsAgree.noted_same (hs' : s'.ListsAgree c) {N : Nat} (hc : c.Bounded N)
    {r : Request} {b : Bool} (hb : b = false ∨ c.note r = c) :
    s'.ListsAgree (if b then c.note r else c) ∧ (if b then c.note r else c).Bounded (N + 1) := by
  have heq : (if b then c.note r else c) = c := by
    rcases hb with rfl | hn
    · rfl
    · rw [hn, ite_self]
  rw [heq]
  exact ⟨hs', hc.mono (Nat.le_succ N)⟩

theorem isOk_map {α β : Type} (g : α → β) (r : Except SessionError α) :
    (r.map g).isOk = r.isOk := by
  cases r <;> rfl

/-- One request in the session's own directory keeps the agreement, with what it created
noted, and creates at most one name. -/
theorem ListsAgree.step (h : s.ListsAgree c) {N : Nat} (hc : c.Bounded N)
    (hN : N + 1 < Nat.pow 256 8) {r : Request} (hr : r.inOneDirectory = true) :
    (noteStep (c, s) r).2.ListsAgree (noteStep (c, s) r).1 ∧
      (noteStep (c, s) r).1.Bounded (N + 1) := by
  unfold noteStep
  rcases hstep : s.step r with ⟨out, s'⟩
  dsimp only
  cases r
  case createNamespace space =>
    dsimp only [Session.step] at hstep
    split at hstep
    · obtain ⟨rfl, rfl⟩ := Prod.mk.inj hstep
      exact h.noted_same hc (.inl (by rfl))
    next db hreq =>
      have hdb := requireDb_eq_ok hreq
      split at hstep
      · obtain ⟨rfl, rfl⟩ := Prod.mk.inj hstep
        exact h.noted_same hc (.inl (by rfl))
      next hd db' hcr =>
        obtain ⟨rfl, rfl⟩ := Prod.mk.inj hstep
        obtain ⟨hro, hagr⟩ := (h.store db hdb).1.createNamespace hc hN hcr
        obtain ⟨sp, hsp, hh⟩ := Database.space?_createNamespace hcr
        -- the creation is noted exactly when the store is open for writing
        rw [ite_writable hdb]
        refine ⟨?_, ?_⟩
        · have h₁ := h.with_db hdb hagr hro (fun hro' => by rw [if_pos hro'])
            (Database.KeepsHandles.createNamespace hcr)
          exact h₁.setHandle rfl hsp hh
        · split
          · exact hc.mono (Nat.le_succ N)
          · exact hc.addSpace (Database.createNamespace_eq_ok hcr).1
  case createBucket space name =>
    dsimp only [Session.step] at hstep
    split at hstep
    · obtain ⟨rfl, rfl⟩ := Prod.mk.inj hstep
      exact h.noted_same hc (.inl (by rfl))
    next db hreq =>
      obtain ⟨_, -, hreq⟩ := Except.bind_eq_ok.1 hreq
      have hdb := requireDb_eq_ok hreq
      split at hstep
      · obtain ⟨rfl, rfl⟩ := Prod.mk.inj hstep
        exact h.noted_same hc (.inl (by rfl))
      next hd db' hcr =>
        obtain ⟨rfl, rfl⟩ := Prod.mk.inj hstep
        obtain ⟨hro, hagr⟩ := (h.store db hdb).1.createBucket hc hN hcr
        rw [ite_writable hdb]
        refine ⟨?_, ?_⟩
        · have h₁ := h.with_db hdb hagr hro (fun hro' => by rw [if_pos hro'])
            (Database.KeepsHandles.createBucket hcr)
          -- the session's bucket handles are not part of the agreement
          exact h₁.of_frame rfl rfl rfl rfl
        · split
          · exact hc.mono (Nat.le_succ N)
          · exact hc.addBucket (Database.createBucket_eq_ok hcr).1
  case deleteNamespace space =>
    dsimp only [Session.step] at hstep
    obtain ⟨rfl, rfl⟩ := Prod.mk.inj hstep
    rw [isOk_map]
    refine ⟨h.change fun db a db' hdb hf => ?_, ?_⟩
    · have hd := Except.eq_ok_of_unit_pair hf
      obtain ⟨hro, hro', hagr⟩ := (h.store db hdb).1.deleteNamespace hd
      -- emptying a namespace is a write, so it succeeded on a store open for writing
      rw [if_neg (by simp [hro])]
      exact ⟨hagr, hro'.trans hro.symm, Database.KeepsHandles.deleteNamespace hd⟩
    · split
      · exact (hc.clearSpace space).mono (Nat.le_succ N)
      · exact hc.mono (Nat.le_succ N)
  case deleteBucket space name =>
    dsimp only [Session.step] at hstep
    split at hstep
    · obtain ⟨rfl, rfl⟩ := Prod.mk.inj hstep
      exact h.noted_same hc (.inl (by rfl))
    next hreq =>
      -- the bucket's records lie outside the name lists, and its name stays stored
      obtain ⟨-, -, -, -, hv⟩ := h.requireSpace hreq
      obtain ⟨-, rfl⟩ := Prod.mk.inj hstep
      refine (h.change_keeps fun db a db' _ hf => ?_).noted_same hc (.inr (by rfl))
      have hd := Except.eq_ok_of_unit_pair hf
      exact Database.deleteBucket_keepsLists hv.2 hd
  case loadBuckets space =>
    dsimp only [Session.step] at hstep
    split at hstep
    · obtain ⟨rfl, rfl⟩ := Prod.mk.inj hstep
      exact h.noted_same hc (.inl (by rfl))
    split at hstep
    · obtain ⟨rfl, rfl⟩ := Prod.mk.inj hstep
      exact h.noted_same hc (.inl (by rfl))
    next db hreq =>
      have hdb := requireDb_eq_ok hreq
      obtain ⟨-, rfl⟩ := Prod.mk.inj hstep
      refine ListsAgree.noted_same ?_ hc (.inr (by rfl))
      exact h.with_db hdb ((h.store db hdb).1.loadBuckets hc space)
        (Database.loadBuckets_table space).1 (fun _ => rfl) (Database.KeepsHandles.loadBuckets space)
  case putDocumentWithObjects space key doc objects =>
    dsimp only [Session.step] at hstep
    split at hstep
    · obtain ⟨rfl, rfl⟩ := Prod.mk.inj hstep
      exact h.noted_same hc (.inl (by rfl))
    next hreq =>
      obtain ⟨-, -, -, -, hv⟩ := h.requireSpace hreq
      obtain ⟨-, rfl⟩ := Prod.mk.inj hstep
      refine (h.change_keeps fun db a db' _ hf => ?_).noted_same hc (.inr (by rfl))
      have hd := Except.eq_ok_of_unit_pair hf
      exact Database.putDocumentWithObjects_keepsLists hv.2 hd
  case putDocument space key doc =>
    dsimp only [Session.step] at hstep
    split at hstep
    · obtain ⟨rfl, rfl⟩ := Prod.mk.inj hstep
      exact h.noted_same hc (.inl (by rfl))
    next b hb =>
      -- a bucket of a namespace whose name can be keyed holds no name-list key
      obtain ⟨hreq, hbs⟩ := bucketOf_space hb
      obtain ⟨-, -, -, -, hv⟩ := h.requireSpace hreq
      obtain ⟨-, rfl⟩ := Prod.mk.inj hstep
      refine (h.change_keeps fun db a db' _ hf => ?_).noted_same hc (.inr (by rfl))
      have hd := Except.eq_ok_of_unit_pair hf
      exact Database.putDocument_keepsLists hv.2 hbs hd
  case put space bref key value info =>
    dsimp only [Session.step] at hstep
    split at hstep
    · obtain ⟨rfl, rfl⟩ := Prod.mk.inj hstep
      exact h.noted_same hc (.inl (by rfl))
    next b hb =>
      obtain ⟨hreq, hbs⟩ := bucketOf_space hb
      obtain ⟨-, -, -, -, hv⟩ := h.requireSpace hreq
      obtain ⟨-, rfl⟩ := Prod.mk.inj hstep
      refine (h.change_keeps fun db a db' _ hf => ?_).noted_same hc (.inr (by rfl))
      have hd := Except.eq_ok_of_unit_pair hf
      exact Database.put_keepsLists hv.2 hbs hd
  case putValue space bref value info =>
    dsimp only [Session.step] at hstep
    split at hstep
    · obtain ⟨rfl, rfl⟩ := Prod.mk.inj hstep
      exact h.noted_same hc (.inl (by rfl))
    next b hb =>
      obtain ⟨hreq, hbs⟩ := bucketOf_space hb
      obtain ⟨-, -, -, -, hv⟩ := h.requireSpace hreq
      obtain ⟨-, rfl⟩ := Prod.mk.inj hstep
      exact (h.change_keeps fun db a db' _ hf =>
        Database.putValue_keepsLists hv.2 hbs hf).noted_same hc (.inr (by rfl))
  case delete space bref key =>
    dsimp only [Session.step] at hstep
    split at hstep
    · obtain ⟨rfl, rfl⟩ := Prod.mk.inj hstep
      exact h.noted_same hc (.inl (by rfl))
    next b hb =>
      obtain ⟨hreq, hbs⟩ := bucketOf_space hb
      obtain ⟨-, -, -, -, hv⟩ := h.requireSpace hreq
      obtain ⟨-, rfl⟩ := Prod.mk.inj hstep
      refine (h.change_keeps fun db a db' _ hf => ?_).noted_same hc (.inr (by rfl))
      have hd := Except.eq_ok_of_unit_pair hf
      exact Database.delete_keepsLists hv.2 hbs hd
  case reopen o =>
    dsimp only [Session.step] at hstep
    obtain ⟨-, rfl⟩ := Prod.mk.inj hstep
    exact (h.reopen (beq_iff_eq.1 hr)).noted_same hc (.inr (by rfl))
  case makeFile | replaceStoreFile | console | dumpTable | setRecord | deleteRecord =>
    simp [Request.inOneDirectory] at hr
  case listBuckets | storedBuckets | getDocument | get | getAt | getMeta | contains | count |
      scan | find | advance | release =>
    -- reads through a handle leave the session as it was; cursor requests change the cursors
    dsimp only [Session.step] at hstep
    split at hstep <;>
      (obtain ⟨-, rfl⟩ := Prod.mk.inj hstep
       refine (h.of_frame ?_ ?_ ?_ ?_).noted_same hc (.inr ?_) <;> rfl)
  case range =>
    dsimp only [Session.step] at hstep
    split at hstep
    · obtain ⟨-, rfl⟩ := Prod.mk.inj hstep
      exact h.noted_same hc (.inr (by rfl))
    · split at hstep <;>
        (obtain ⟨-, rfl⟩ := Prod.mk.inj hstep
         refine (h.of_frame ?_ ?_ ?_ ?_).noted_same hc (.inr ?_) <;> rfl)
  -- the other requests answer from the session as it is
  all_goals
    obtain ⟨-, rfl⟩ := Prod.mk.inj hstep
    exact h.noted_same hc (.inr (by rfl))

/-- Along a run in the session's own directory the agreement holds with what the run created,
each request creating at most one name. -/
theorem ListsAgree.run (h : s.ListsAgree c) {N : Nat} (hc : c.Bounded N) {reqs : List Request}
    (hreqs : ∀ r ∈ reqs, r.inOneDirectory = true) (hN : N + reqs.length < Nat.pow 256 8) :
    (reqs.foldl noteStep (c, s)).2.ListsAgree (reqs.foldl noteStep (c, s)).1 ∧
      (reqs.foldl noteStep (c, s)).1.Bounded (N + reqs.length) := by
  induction reqs generalizing c s N with
  | nil => exact ⟨h, hc⟩
  | cons r rs ih =>
    have hlen : N + 1 + rs.length = N + (r :: rs).length := by
      rw [List.length_cons]
      omega
    obtain ⟨h₁, hc₁⟩ := h.step hc (by omega) (hreqs r List.mem_cons_self)
    rw [← hlen]
    exact ih h₁ hc₁ (fun r' hr' => hreqs r' (List.mem_cons_of_mem _ hr')) (by omega)

end Session

/-- Along every run of a fresh session in its own directory, whatever it creates, empties,
closes and opens again, the open store keeps its name lists and registrations in step with the
names the run created (`Session.noteRun`: a creation counts when it succeeded on a store open
for writing, and emptying a namespace forgets its bucket names):

* the stored namespace list holds each created namespace once, in the order of first creation,
  and each namespace's stored bucket list the same for its created buckets;
* on a store open for writing, every registered namespace and user bucket is stored;
* a registered namespace or user bucket asked for again gives its handle back and changes
  nothing;
* loading a namespace's stored buckets registers, with the next handle numbers, exactly the
  stored names not registered yet and answers how many; loading again right after answers 0. -/
theorem name_lists_follow_creations (readOnly : Bool) (reqs : List Request)
    (hreqs : ∀ r ∈ reqs, r.inOneDirectory = true) (hlen : reqs.length < Nat.pow 256 8) :
    let p := (Session.start readOnly).1.noteRun reqs
    p.2 = (Session.start readOnly).1.runAll reqs ∧ ∀ db, p.2.db = some db →
      (db.storedNamespaces = .ok p.1.spaces.eraseDups ∧ p.1.spaces.eraseDups.Nodup) ∧
      (∀ n, n.length ≤ Keys.maxNameLength →
        db.storedBuckets n = .ok (p.1.buckets n).eraseDups ∧ (p.1.buckets n).eraseDups.Nodup) ∧
      (db.readOnly = false → ∀ sp ∈ db.spaces, sp.name ∈ p.1.spaces.eraseDups ∧
        ∀ b ∈ sp.buckets, b.1 ∈ (p.1.buckets sp.name).eraseDups) ∧
      (∀ n sp, db.space? n = some sp → db.createNamespace n = .ok (sp.handle, db) ∧
        ∀ b hd, sp.buckets.lookup b = some hd → db.createBucket n b = .ok (hd, db)) ∧
      (∀ n sp, db.space? n = some sp → ∃ new : List (Bytes × Nat),
        new.map Prod.fst = (p.1.buckets n).eraseDups.filter (fun b => (sp.buckets.lookup b).isNone) ∧
        db.loadBuckets n = (.ok new.length,
          { db.setSpace { sp with buckets := sp.buckets ++ new } with
            nextHandle := db.nextHandle + new.length }) ∧
        ((db.loadBuckets n).2.loadBuckets n).1 = .ok 0) := by
  intro p
  obtain ⟨hagree, hb⟩ := (Session.ListsAgree.start readOnly).run (Creations.Bounded.empty 0) hreqs
    (by omega)
  refine ⟨Session.foldl_noteStep_snd _ _ reqs, fun db hdb => ?_⟩
  have h := (hagree.store db hdb).1
  -- a stored bucket list holds bucket names that can be keyed
  have hfit : ∀ n b, b ∈ (p.1.buckets n).eraseDups → b.length ≤ Keys.maxNameLength :=
    fun n b hmem => (hb.buckets n b (List.mem_eraseDups.1 hmem)).2
  refine ⟨⟨h.lists.spaces, nodup_eraseDups _⟩, fun n hn => ⟨h.lists.buckets n hn, nodup_eraseDups _⟩,
    fun hro sp hsp => ?_, fun n sp hsp => ⟨?_, fun b hd hl => ?_⟩, fun n sp hsp => ?_⟩
  · obtain ⟨hn, hbk⟩ := h.stored hro sp hsp
    exact ⟨List.mem_eraseDups.2 hn, fun b hmem => List.mem_eraseDups.2 (hbk b hmem)⟩
  · exact Database.createNamespace_of_registered hsp (h.valid_of_space? hsp)
  · obtain ⟨q, hq, rfl⟩ := Session.mem_of_lookup_isSome (Option.isSome_iff_exists.2 ⟨hd, hl⟩)
    exact Database.createBucket_of_registered hsp hl (h.buckets sp (Database.space?_eq_some hsp).1 q hq)
  · have hn := (h.valid_of_space? hsp).2
    obtain ⟨new, hnew, heq⟩ := Database.loadBuckets_eq hsp (h.lists.buckets n hn) (hfit n)
    -- the stored list holds no name twice, so neither do the names it loads
    rw [eraseDups_of_nodup ((nodup_eraseDups _).filter _)] at hnew
    exact ⟨new, hnew, heq, Database.loadBuckets_again hsp (h.lists.buckets n hn) (hfit n)⟩

/-- A run that creates a namespace and a bucket, empties the namespace, creates another bucket,
reopens the store and loads the stored buckets stays in one directory, and its stored lists are
those of the names it created. -/
theorem name_lists_sample_run :
    let reqs := [Request.createNamespace (Bytes.ofString "ns"),
      .createBucket (Bytes.ofString "ns") (Bytes.ofString "a"),
      .deleteNamespace (Bytes.ofString "ns"),
      .createBucket (Bytes.ofString "ns") (Bytes.ofString "b"),
      .reopen {},
      .createNamespace (Bytes.ofString "ns"),
      .loadBuckets (Bytes.ofString "ns")]
    (∀ r ∈ reqs, r.inOneDirectory = true) ∧ reqs.length < Nat.pow 256 8 ∧
      let p := (Session.start false).1.noteRun reqs
      ∀ db, p.2.db = some db → db.storedNamespaces = .ok p.1.spaces.eraseDups ∧
        db.storedBuckets (Bytes.ofString "ns") = .ok (p.1.buckets (Bytes.ofString "ns")).eraseDups := by
  intro reqs
  have hreqs : ∀ r ∈ reqs, r.inOneDirectory = true := by decide
  have hlen : reqs.length < Nat.pow 256 8 := by decide
  have h := (name_lists_follow_creations false reqs hreqs hlen).2
  exact ⟨hreqs, hlen, fun db hdb => ⟨(h db hdb).1.1, ((h db hdb).2.1 _ (by decide)).1⟩⟩

end ArchiveStore
