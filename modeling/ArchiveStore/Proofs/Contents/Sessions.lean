import ArchiveStore.Proofs.Session.Logs
/-!
# The contents along every run of a session

A session whose requests stay within what the contents describe (`Request.staysInModel`)
keeps its store showing the contents its run wrote (`Contents.track`: each request moves the
contents by its answer). The open store's table shows them, and so does the store file
whenever the store is closed or open only for reading: this is `Session.Tracks` for the
property `Table.Shows c`, with the chunks owned (`Session.Owned`) carried beside it.

The contents are a log kept beside the session: each write of the store moves the entries its
table shows as its answer moves the contents (`Contents.logRules`), so the step and run lemmas
of such logs give `Session.Tracks.trackRun`. `stores_refine_bucket_maps` is the result: along
every run of a fresh session, every entry of every data bucket of every namespace reads as the
contents say, and on a store open for writing a put fails only for a refused value.
-/

namespace ArchiveStore

/-- The empty table shows no entries, and each of its counters reads as zero. -/
theorem Table.Shows.empty : Table.empty.Shows Contents.empty where
  reads _ _ _ _ _ _ := .of_get?_none Table.get?_empty
  counters _ _ _ _ := ⟨0, Table.counterAt_of_get?_none Table.get?_empty⟩

namespace Contents

/-- Tracking a request carries it out and moves the contents by its answer. -/
theorem track_eq (c : Contents) (s : Session) (r : Request) :
    track (c, s) r = (c.after r (s.step r).1, (s.step r).2) := by
  unfold track
  dsimp only

/-- A request that failed changes no entry. -/
@[simp] theorem after_error (c : Contents) (r : Request) (e : SessionError) :
    c.after r (.error e) = c := by
  cases r <;> rfl

/-- Tracking the contents is keeping them as a log beside the session. -/
theorem track_eq_logTrack : track = Session.logTrack after := by
  funext p r
  exact track_eq p.1 p.2 r

/-- Tracking the contents changes nothing about the run. -/
theorem foldl_track_snd (c : Contents) (s : Session) (reqs : List Request) :
    (reqs.foldl track (c, s)).2 = s.runAll reqs := by
  rw [track_eq_logTrack]
  exact Session.foldl_logTrack_snd c s reqs

end Contents

/-- `Database.Wrote` is a write that leaves a table showing the contents. -/
theorem Database.Wrote.leaves {db db' : Database} {c : Contents} (w : db.Wrote db' c) :
    db.Leaves db' (Table.Shows c) :=
  ⟨w.writable, w.stays, w.shows⟩

/-- The contents move by the answers of the requests as the store's writes move the entries its
table shows. -/
theorem Contents.logRules : Session.LogRules Contents.after Table.Shows where
  after_error := Contents.after_error
  after_of_not_mutates c r out hm := by
    cases r <;> simp only [Request.mutates, Bool.true_eq_false] at hm <;> rfl
  after_createNamespace _ _ _ := rfl
  after_createBucket _ _ _ _ := rfl
  createNamespace h hown hcr := Database.shows_createNamespace h hown hcr
  createBucket h hown hcr := Database.shows_createBucket h hown hcr
  deleteNamespace h hn hd := (Database.wrote_deleteNamespace h hn hd).leaves
  deleteBucket h hown hd := (Database.wrote_deleteBucket h hown hd).leaves
  putDocumentWithObjects h hown hn hfit hp :=
    (Database.wrote_putDocumentWithObjects h hown hn hfit hp).leaves
  putDocument h hown hn hp := (Database.wrote_putDocument h hown hn hp).leaves
  put h hown hn hr hrc hv hp := (Database.wrote_put h hown hn hr hrc (.inr hv) hp).leaves
  putValue h hown hn hr hrc hv hp := (Database.wrote_putValue h hown hn hr hrc (.inr hv) hp).leaves
  delete h hown hn hr hrc hd := (Database.wrote_delete h hown hn hr hrc hd).leaves

namespace Session

variable {s : Session} {c : Contents}

/-- Along a run within the contents, the session's store shows the contents the run wrote, and
the session stays owned. -/
theorem Tracks.trackRun (h : s.Tracks (fun db => db.table.Shows c) (Table.Shows c))
    (hown : s.Owned) {reqs : List Request} (hreqs : ∀ r ∈ reqs, r.staysInModel = true) :
    (reqs.foldl Contents.track (c, s)).2.Tracks
        (fun db => db.table.Shows (reqs.foldl Contents.track (c, s)).1)
        (Table.Shows (reqs.foldl Contents.track (c, s)).1) ∧
      (reqs.foldl Contents.track (c, s)).2.Owned := by
  rw [Contents.track_eq_logTrack]
  exact h.logRun Contents.logRules hown hreqs

end Session

/-- Every bucket of every namespace behaves as a map of its own. Along every run of a fresh
session whose requests stay within the contents (`Request.staysInModel`: no raw write to the
store file, no direct write to a chunk bucket, reopening only in its own directory), with the
contents moved by each request's answer (`Contents.track`: a failed request changes nothing),
the open store reads every entry of every data bucket as the contents say; and on a store open
for writing, a put or an append into such a bucket fails only for a refused value: a negative
chunk size, an exhausted sequence counter, or a meta too large to pack. -/
theorem stores_refine_bucket_maps (readOnly : Bool) (reqs : List Request)
    (hreqs : ∀ r ∈ reqs, r.staysInModel = true) :
    let p := reqs.foldl Contents.track (Contents.empty, (Session.start readOnly).1)
    p.2 = (Session.start readOnly).1.runAll reqs ∧ ∀ db, p.2.db = some db →
      (∀ (n : Bytes) (r : BucketRef) (k : Bytes), n.length ≤ Keys.maxNameLength → r.Fits →
        r ≠ .chunks → ReadsAs (r.bucketIn n) db.table k (p.1 n r k)) ∧
      (db.readOnly = false → ∀ (n : Bytes) (r : BucketRef) (key value : Bytes)
        (info : Option Meta) (e : StoreError), n.length ≤ Keys.maxNameLength → r.Fits →
        r ≠ .chunks →
        (db.put (r.bucketIn n) key value info = .error e → e.refusesValue = true) ∧
        (db.putValue (r.bucketIn n) value info = .error e → e.refusesValue = true)) := by
  intro p
  have hstart : (Session.start readOnly).1.Tracks (fun db => db.table.Shows Contents.empty)
      (Table.Shows Contents.empty) :=
    Session.Tracks.start (fun _ _ ht => ht) Table.Shows.empty readOnly
  obtain ⟨h, hown⟩ := hstart.trackRun (Session.Owned.start readOnly) hreqs
  refine ⟨Contents.foldl_track_snd _ _ reqs, fun db hdb => ?_⟩
  have hshows := (h.store db hdb).1
  have hdbown := hown.db db hdb
  refine ⟨fun n r k hn hr hrc => hshows.reads n r k hn hr hrc, ?_⟩
  intro hro n r key value info e hn hr hrc
  exact ⟨Database.put_refused hshows hdbown hro hn hr hrc,
    Database.putValue_refused hshows hdbown hro hn hr hrc⟩

/-- A sample run: a namespace is made, an object is put twice and deleted, a document is
appended, and the store is reopened; the open store reads each object key as the contents say. -/
theorem bucket_maps_sample_run :
    let ns := Bytes.ofString "ns"
    let reqs := [Request.createNamespace ns,
      .put ns .objects (Bytes.ofString "a") (Bytes.ofString "abcdef") (some ⟨"", 4, 0, []⟩),
      .put ns .objects (Bytes.ofString "b") (Bytes.ofString "xyz") none,
      .putValue ns .documents (Bytes.ofString "abcde") (some ⟨"", 1, 0, []⟩),
      .delete ns .objects (Bytes.ofString "a"),
      .reopen {}]
    (∀ r ∈ reqs, r.staysInModel = true) ∧
      let p := reqs.foldl Contents.track (Contents.empty, (Session.start false).1)
      ∀ db, p.2.db = some db → ∀ k,
        ReadsAs (BucketRef.objects.bucketIn ns) db.table k (p.1 ns .objects k) := by
  intro ns reqs
  have hreqs : ∀ r ∈ reqs, r.staysInModel = true := by decide
  refine ⟨hreqs, fun db hdb k => ?_⟩
  exact ((stores_refine_bucket_maps false reqs hreqs).2 db hdb).1 ns .objects k (by decide)
    trivial (fun hc => by cases hc)

end ArchiveStore
