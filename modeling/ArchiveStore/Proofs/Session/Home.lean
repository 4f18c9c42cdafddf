import ArchiveStore.Proofs.Ownership.Sessions
/-!
# The store of a session's own directory

A session that opens its store again only in its own directory works with one store file,
`StoreFile.home`. Whatever a run keeps about the stored data is then kept in two places: by the
open store while it is open, and by that file. This module says once, for any property `P` of
tables and `D` of open stores, how the two hand it over:

* `Host.HomeHolds P host`: the file holds a store whose table satisfies `P`, or no file holds a
  store and `P` holds of the empty table, which opening for writing makes. Opening reads the
  file (`Host.HomeHolds.openOn`); writing a table back keeps it (`Host.HomeHolds.saveStore`).
* `Session.Tracks D P s`: the open store satisfies `D`; a read-only store leaves `P` to the
  file, a store open for writing has its file to write back to; a closed store's file
  satisfies `P`. Where the table of every store satisfying `D` satisfies `P`, and every store
  opened on a table satisfying `P` satisfies `D`, closing the store and opening it again keep
  it (`Session.Tracks.reopen`, `Session.Tracks.rawAccess`).

`Session.change_eq` takes apart a change of the open store, once for every request that
writes.
-/

namespace ArchiveStore

/-- The store file of the session's directory. -/
def StoreFile.home : String := StoreFile.pathIn Host.scenarioRoot

/-- Reopening by the empty relative path finds the store file of the session's directory. -/
theorem StoreFile.pathIn_join_empty :
    StoreFile.pathIn (Path.join Host.scenarioRoot "") = StoreFile.home := by
  decide +kernel

namespace Host

variable {host host' : Host} {P : Table → Prop}

/-- The host keeps `P` of the store of the session's directory: the store file holds a store
whose table satisfies `P`, or no file holds a store and `P` holds of the empty table. -/
def HomeHolds (P : Table → Prop) (host : Host) : Prop :=
  (∃ t, host.stat StoreFile.home = .ok (.file (.store t)) ∧ P t) ∨
    (P Table.empty ∧ ∀ loc t, (loc, Node.file (.store t)) ∉ host.nodes)

/-- A fresh machine holds no store. -/
theorem HomeHolds.fresh (he : P Table.empty) : Host.fresh.HomeHolds P :=
  .inr ⟨he, fun loc t h => by simp [Host.fresh] at h⟩

/-- A file read is a file the path leads to. -/
theorem stat_of_readFile {path : String} {fc : FileContent} (h : host.readFile path = .ok fc) :
    host.stat path = .ok (.file fc) := by
  unfold readFile at h
  cases hs : host.stat path with
  | error e => rw [hs] at h; cases h
  | ok n =>
    rw [hs] at h
    cases n with
    | directory => cases h
    | file fc' =>
      cases h
      rfl

/-- What a host that grew keeps. -/
theorem HomeHolds.grow (hl : host.HomeHolds P) (hg : host.Grows host') : host'.HomeHolds P := by
  rcases hl with ⟨t, hst, ht⟩ | ⟨he, hnone⟩
  · exact .inl ⟨t, hg.stat hst, ht⟩
  · exact .inr ⟨he, fun loc t hmem => hnone loc t (hg.files loc _ hmem)⟩

/-- A store file the session's path leads to satisfies what the host keeps. -/
theorem HomeHolds.of_stat (hl : host.HomeHolds P) {t : Table}
    (hst : host.stat StoreFile.home = .ok (.file (.store t))) : P t := by
  rcases hl with ⟨t₀, hst₀, ht₀⟩ | ⟨-, hnone⟩
  · rw [hst₀] at hst
    simp only [Except.ok.injEq, Node.file.injEq, FileContent.store.injEq] at hst
    exact hst ▸ ht₀
  · obtain ⟨loc, hmem⟩ := mem_of_stat hst
    exact absurd hmem (hnone loc t)

/-- The store read from the session's file satisfies what the host keeps. -/
theorem HomeHolds.openStoreFile (hl : host.HomeHolds P) {t : Table}
    (ho : host.openStoreFile StoreFile.home = .ok t) :
    P t ∧ host.stat StoreFile.home = .ok (.file (.store t)) := by
  unfold Host.openStoreFile at ho
  split at ho
  · cases ho
  next t' hread =>
    cases ho
    have hst := stat_of_readFile hread
    exact ⟨hl.of_stat hst, hst⟩
  · cases ho
  · cases ho

/-- Opening a store for writing finds the store in its file, or, where no store is, makes an
empty one. -/
theorem createStoreFile_eq_ok {path : String} {t : Table}
    (ho : host.createStoreFile path = .ok (t, host')) :
    (host.stat path = .ok (.file (.store t)) ∧ host' = host) ∨
      (t = Table.empty ∧ (∀ t₀, host.stat path ≠ .ok (.file (.store t₀))) ∧
        host.writeFile path (.store Table.empty) = .ok host') := by
  unfold createStoreFile at ho
  dsimp only at ho
  -- an empty store is made where nothing stands or an empty file does
  split at ho
  next hs =>
    split at ho
    next h₁ hw =>
      obtain ⟨rfl, rfl⟩ := Prod.mk.inj (Except.ok.inj ho)
      exact .inr ⟨rfl, (fun t₀ h => by rw [hs] at h; cases h), hw⟩
    · cases ho
  · cases ho
  · cases ho
  next t₀ hs =>
    obtain ⟨rfl, rfl⟩ := Prod.mk.inj (Except.ok.inj ho)
    exact .inl ⟨hs, rfl⟩
  next hs =>
    split at ho
    next h₁ hw =>
      obtain ⟨rfl, rfl⟩ := Prod.mk.inj (Except.ok.inj ho)
      exact .inr ⟨rfl, (fun t₀ h => by rw [hs] at h; cases h), hw⟩
    · cases ho
  · cases ho

variable {dir : String} (hdir : StoreFile.pathIn dir = StoreFile.home)
include hdir

/-- A store opened for reading satisfies what the host keeps. -/
theorem HomeHolds.openStoreReadOnly (hl : host.HomeHolds P) {t : Table}
    (ho : host.openStoreReadOnly dir = .ok t) : P t := by
  unfold Host.openStoreReadOnly at ho
  dsimp only at ho
  split at ho
  · rw [hdir] at ho
    exact (hl.openStoreFile ho).1
  · cases ho

/-- A store opened for writing satisfies what the host keeps, and leaves a store in the
session's file. -/
theorem HomeHolds.openStore (hl : host.HomeHolds P) {t : Table}
    (ho : host.openStore dir = .ok (t, host')) :
    P t ∧ ∃ t', host'.stat StoreFile.home = .ok (.file (.store t')) := by
  unfold Host.openStore at ho
  split at ho
  · cases ho
  next h₁ hdirs =>
    have hl₁ := hl.grow (grows_createDirAll hdirs)
    rw [hdir] at ho
    rcases createStoreFile_eq_ok ho with ⟨hst, rfl⟩ | ⟨rfl, hnot, hw⟩
    · exact ⟨hl₁.of_stat hst, t, hst⟩
    · refine ⟨?_, Table.empty, stat_writeFile hw⟩
      -- no store stood in the file, so the empty table satisfies what the host keeps
      rcases hl₁ with ⟨t₀, hst₀, -⟩ | ⟨he, -⟩
      · exact absurd hst₀ (hnot t₀)
      · exact he

/-- Writing a table back to the session's store file leaves the host keeping what it
satisfies. -/
theorem HomeHolds.saveStore {t₀ t : Table}
    (hst : host.stat StoreFile.home = .ok (.file (.store t₀))) (ht : P t) :
    (host.saveStore dir t).HomeHolds P := by
  obtain ⟨h', hw⟩ := writeFile_of_stat hst (.store t)
  unfold Host.saveStore Host.saveStoreFile
  rw [hdir, hw]
  exact .inl ⟨t, stat_writeFile hw, ht⟩

/-- Opening the store of the session's directory gives a store with no registration on a table
that satisfies what the host keeps; opened for reading, the host keeps it still; opened for
writing, a store file stands to write back to. -/
theorem HomeHolds.openOn (hl : host.HomeHolds P) {ro : Bool} {db : Database}
    (ho : Database.openOn host dir ro = .ok (db, host')) :
    (∃ t, P t ∧ db = { table := t, readOnly := ro }) ∧ (db.readOnly = true → host'.HomeHolds P) ∧
      (db.readOnly = false → ∃ t, host'.stat StoreFile.home = .ok (.file (.store t))) := by
  unfold Database.openOn at ho
  split at ho
  next hro =>
    obtain ⟨t, hot, hret⟩ := Except.bind_eq_ok.1 ho
    obtain ⟨rfl, rfl⟩ := Prod.mk.inj (Except.ok.inj hret)
    exact ⟨⟨t, hl.openStoreReadOnly hdir hot, by rw [hro]⟩, fun _ => hl, (fun h => by cases h)⟩
  next hro =>
    obtain ⟨⟨t, h₁⟩, hot, hret⟩ := Except.bind_eq_ok.1 ho
    obtain ⟨rfl, rfl⟩ := Prod.mk.inj (Except.ok.inj hret)
    obtain ⟨ht, hfile⟩ := hl.openStore hdir hot
    exact ⟨⟨t, ht, by simp [hro]⟩, (fun h => by cases h), fun _ => hfile⟩

end Host

namespace Session

variable {s s' : Session} {D D' : Database → Prop} {P P' : Table → Prop}

/-- What a session in its own directory keeps of its store: the open store satisfies `D`; a
read-only store leaves `P` to the store file, a store open for writing has its file to write
back to; a closed store's file satisfies `P`. -/
structure Tracks (D : Database → Prop) (P : Table → Prop) (s : Session) : Prop where
  dir : StoreFile.pathIn s.dataDir = StoreFile.home
  store : ∀ db, s.db = some db → D db ∧ (db.readOnly = true → s.host.HomeHolds P) ∧
    (db.readOnly = false → ∃ t, s.host.stat StoreFile.home = .ok (.file (.store t)))
  closed : s.db = none → s.host.HomeHolds P

/-- A session that differs only in what the tracking does not read keeps it. -/
theorem Tracks.of_frame (h : s.Tracks D P) (hhost : s'.host = s.host) (hdb : s'.db = s.db)
    (hdir : s'.dataDir = s.dataDir) : s'.Tracks D P :=
  ⟨hdir ▸ h.dir, hhost ▸ hdb ▸ h.store, hhost ▸ hdb ▸ h.closed⟩

/-- A change of the open store to one satisfying `D'`; what the file keeps may move to `P'`
only on a store open for writing, which writes its table back. -/
theorem Tracks.with_db (h : s.Tracks D P) {db db' : Database} (hdb : s.db = some db)
    (hD : D' db') (hro : db'.readOnly = db.readOnly) (hP : db.readOnly = true → P' = P) :
    ({ s with db := some db' } : Session).Tracks D' P' := by
  obtain ⟨-, hhost, hfile⟩ := h.store db hdb
  refine ⟨h.dir, fun d hd => ?_, fun hd => by cases hd⟩
  cases hd
  refine ⟨hD, fun hro' => ?_, fun hro' => hfile (hro ▸ hro')⟩
  rw [hP (hro ▸ hro')]
  exact hhost (hro ▸ hro')

/-- Closing the store leaves the host keeping `P`: a store open for writing writes back a table
that satisfies it. -/
theorem Tracks.close (h : s.Tracks D P) (hDP : ∀ db, D db → P db.table) :
    s.close.host.HomeHolds P := by
  unfold Session.close
  dsimp only
  split
  next db hdb =>
    obtain ⟨hD, hhost, hfile⟩ := h.store db hdb
    unfold Database.closeOn
    split
    next hro => exact hhost hro
    next hro =>
      obtain ⟨t, hst⟩ := hfile (by simpa using hro)
      exact Host.HomeHolds.saveStore h.dir hst (hDP db hD)
  next hdb => exact h.closed hdb

/-- Opening the store of the session's directory, from a session with no store, tracks what the
host keeps. -/
theorem Tracks.reopenHere (hdir : StoreFile.pathIn s.dataDir = StoreFile.home)
    (hl : s.host.HomeHolds P) (hD : ∀ t ro, P t → D { table := t, readOnly := ro }) (ro : Bool) :
    (s.reopenHere ro).1.Tracks D P := by
  unfold Session.reopenHere
  split
  next db host' ho =>
    obtain ⟨⟨t, ht, rfl⟩, hro, hfile⟩ := hl.openOn hdir ho
    refine ⟨hdir, fun d hd => ?_, fun hd => by cases hd⟩
    cases hd
    exact ⟨hD t ro ht, hro, hfile⟩
  · exact ⟨hdir, (fun d hd => by cases hd), fun _ => hl⟩

/-- Opening the store again keeps the handles the session holds as they are. -/
theorem reopenHere_spaces (ro : Bool) : (s.reopenHere ro).1.spaces = s.spaces := by
  unfold Session.reopenHere
  split <;> rfl

variable (hDP : ∀ db, D db → P db.table) (hD : ∀ t ro, P t → D { table := t, readOnly := ro })
include hDP hD

/-- Closing the store and opening it again in the same directory keeps the tracking. -/
theorem Tracks.reopen (h : s.Tracks D P) {o : OpenOptions} (ho : o.subdir = "") :
    (s.reopen o).1.Tracks D P := by
  unfold Session.reopen
  dsimp only
  rw [ho]
  refine Tracks.reopenHere ?_ ?_ hD _
  · exact StoreFile.pathIn_join_empty
  · exact h.close hDP

/-- A raw access that writes back the table it read keeps the tracking: the store is closed,
its file read and written again, and the store opened again. -/
theorem Tracks.rawAccess (h : s.Tracks D P) {α : Type} {act : Table → α × Table}
    (hact : ∀ t, (act t).2 = t) : (s.rawAccess act).2.Tracks D P := by
  have hl := h.close hDP
  have hdir : StoreFile.pathIn s.close.dataDir = StoreFile.home := h.dir
  unfold Session.rawAccess
  dsimp only
  split
  · exact Tracks.reopenHere hdir hl hD _
  next t hopen =>
    dsimp only
    rw [hdir] at hopen
    obtain ⟨ht, hst⟩ := hl.openStoreFile hopen
    refine Tracks.reopenHere ?_ ?_ hD _
    · exact hdir
    · show (s.close.host.saveStore s.close.dataDir (act t).2).HomeHolds P
      rw [hact]
      exact Host.HomeHolds.saveStore hdir hst ht

omit hDP in
/-- A fresh session tracks a property of the empty table, whether its store opened or not. -/
theorem Tracks.start (he : P Table.empty) (ro : Bool) : (Session.start ro).1.Tracks D P :=
  Tracks.reopenHere rfl (Host.HomeHolds.fresh he) hD ro

end Session

/-- A change through `Session.change` failed and left the session as it was, or succeeded on
the open store and keeps the store it changed. -/
theorem Session.change_eq {s s' : Session} {α : Type}
    {f : Database → Except StoreError (α × Database)} {res : Except SessionError α}
    (hch : s.change f = (res, s')) :
    (∃ e, res = .error e ∧ s' = s) ∨
      ∃ db a db', s.db = some db ∧ f db = .ok (a, db') ∧ res = .ok a ∧
        s' = { s with db := some db' } := by
  unfold Session.change at hch
  split at hch
  next e _ =>
    obtain ⟨rfl, rfl⟩ := Prod.mk.inj hch
    exact .inl ⟨e, rfl, rfl⟩
  next db hreq =>
    split at hch
    next a db' hok =>
      obtain ⟨rfl, rfl⟩ := Prod.mk.inj hch
      exact .inr ⟨db, a, db', requireDb_eq_ok hreq, hok, rfl, rfl⟩
    next e _ =>
      obtain ⟨rfl, rfl⟩ := Prod.mk.inj hch
      exact .inl ⟨_, rfl, rfl⟩

end ArchiveStore
