import ArchiveStore.Proofs.Sequence.Counters
/-!
# The keys appends hand out, along every run of a session

A session whose requests stay within what the contents describe (`Request.staysInModel`) keeps
the log of the keys its appends returned (`Issued.track`) in step with the counters of its
store: `Session.Tracks` for the property `Table.Issues I`, with `Session.Owned` carried beside
it. The log is one kept beside the session (`Issued.logRules`): appends push the key they
answer with, deleting a bucket or a namespace clears the logs it empties, and every other
request moves none. A reopen closes the store and opens it again from its file, which keeps the
counters, so it resets no log.

`Session.Tracks.issueRun` is the run lemma. `appended_keys_count_from_zero` is the result: along
every run of a fresh session, the appends into each data bucket since it was last emptied
returned the keys of `0, 1, 2, …` in order, a failed append changes nothing, and an append at an
exhausted counter fails.
-/

namespace ArchiveStore

namespace Issued

/-- Tracking a request carries it out and moves the log by its answer. -/
theorem track_eq (I : Issued) (s : Session) (r : Request) :
    track (I, s) r = (I.after r (s.step r).1, (s.step r).2) := by
  unfold track
  dsimp only

/-- A request that failed hands out nothing and empties nothing. -/
@[simp] theorem after_error (I : Issued) (r : Request) (e : SessionError) :
    I.after r (.error e) = I := by
  cases r <;> rfl

/-- Tracking the handed-out keys is keeping them as a log beside the session. -/
theorem track_eq_logTrack : track = Session.logTrack after := by
  funext p r
  exact track_eq p.1 p.2 r

/-- Tracking the log changes nothing about the run. -/
theorem foldl_track_snd (I : Issued) (s : Session) (reqs : List Request) :
    (reqs.foldl track (I, s)).2 = s.runAll reqs := by
  rw [track_eq_logTrack]
  exact Session.foldl_logTrack_snd I s reqs

/-- The appends hand out keys as the store's counters move: an append pushes the key it answers
with, deleting a bucket or a namespace clears the logs it empties, and no other request moves
a log. -/
theorem logRules : Session.LogRules after Table.Issues where
  after_error := after_error
  after_of_not_mutates I r out hm := by
    cases r <;> simp only [Request.mutates, Bool.true_eq_false] at hm <;> rfl
  after_createNamespace _ _ _ := rfl
  after_createBucket _ _ _ _ := rfl
  createNamespace h _ hcr := Database.issues_createNamespace h hcr
  createBucket h hown hcr := Database.issues_createBucket h hown hcr
  deleteNamespace h hn hd := Database.issues_deleteNamespace h hn hd
  deleteBucket h hown hd := Database.issues_deleteBucket h hown hd
  putDocumentWithObjects h _ hn _ hp := Database.issues_putDocumentWithObjects h hn hp
  putDocument h _ hn hp := Database.issues_putDocument h hn hp
  put h _ hn hr hrc _ hp := Database.issues_put h hn hr hrc hp
  putValue h _ hn hr hrc _ hp := Database.issues_putValue h hn hr hrc hp
  delete h _ hn hr hrc hd := Database.issues_delete h hn hr hrc hd

end Issued

namespace Session

variable {s : Session} {I : Issued}

/-- Whatever state the session's store is in, some table satisfies what it keeps: the open
store's, the file's, or the empty one that opening would make. -/
theorem Tracks.exists_table {P : Table → Prop} (h : s.Tracks (fun db => P db.table) P) :
    ∃ t, P t := by
  cases hdb : s.db with
  | some db => exact ⟨db.table, (h.store db hdb).1⟩
  | none =>
    rcases h.closed hdb with ⟨t, -, ht⟩ | ⟨he, -⟩
    · exact ⟨t, ht⟩
    · exact ⟨_, he⟩

/-- Along a run within the contents, the session's store issues by the log the run kept, and
the session stays owned. -/
theorem Tracks.issueRun (h : s.Tracks (fun db => db.table.Issues I) (Table.Issues I))
    (hown : s.Owned) {reqs : List Request} (hreqs : ∀ r ∈ reqs, r.staysInModel = true) :
    (reqs.foldl Issued.track (I, s)).2.Tracks
        (fun db => db.table.Issues (reqs.foldl Issued.track (I, s)).1)
        (Table.Issues (reqs.foldl Issued.track (I, s)).1) ∧
      (reqs.foldl Issued.track (I, s)).2.Owned := by
  rw [Issued.track_eq_logTrack]
  exact h.logRun Issued.logRules hown hreqs

/-- An append on a store open for writing, into a bucket the session holds, whose counter
stands at the largest 64-bit number, is refused as exhausted and leaves the session as it
was. -/
theorem step_putValue_exhausted {db : Database} (hdb : s.db = some db)
    (hro : db.readOnly = false) {space : Bytes} {bref : BucketRef} {b : Bucket}
    (hb : s.bucketOf space bref = .ok b)
    (hc : db.table.counterAt b.counter = .ok (UInt64.ofNat (Nat.pow 2 64 - 1)))
    (value : Bytes) (info : Option Meta) :
    s.step (.putValue space bref value info) = (.error (.store .counterExhausted), s) := by
  -- the store is open, so the change reaches the append, which stops at the counter
  have hch : s.change (fun db => db.putValue b value info) =
      (.error (.store .counterExhausted), s) := by
    unfold Session.change Session.requireDb
    rw [hdb]
    dsimp only
    rw [Database.putValue_exhausted hro hc]
  dsimp only [Session.step]
  rw [hb]
  dsimp only
  rw [hch]
  rfl

end Session

/-- Appends hand out the keys of `0, 1, 2, …`, with no gap and no repeat. Eight bytes read back
as a number exactly when they are that number's key, and the byte order of keys is the order of
their numbers. Along every run of a fresh session whose requests stay within the contents
(`Request.staysInModel`), the keys that the appends into each data bucket returned since it was
last emptied (with its namespace, or by deleting it; a reopen empties nothing) are the keys of
`0` to `k - 1` in order, so they ascend, for a `k` below `2 ^ 64` at which the open store's
counter stands. A failed append leaves the session as it was, so it uses up no number; and an
append whose counter stands at the largest 64-bit number fails as exhausted, an invalid
argument, and leaves the session as it was. -/
theorem appended_keys_count_from_zero (readOnly : Bool) (reqs : List Request)
    (hreqs : ∀ r ∈ reqs, r.staysInModel = true) :
    let p := reqs.foldl Issued.track (Issued.empty, (Session.start readOnly).1)
    (∀ (bs : Bytes) (c : UInt64), Keys.readSequence bs = .ok c ↔ bs = Keys.sequence c) ∧
    (∀ a b : UInt64, Keys.sequence a < Keys.sequence b ↔ a < b) ∧
    (p.2 = (Session.start readOnly).1.runAll reqs ∧
      ∀ (n : Bytes) (r : BucketRef), n.length ≤ Keys.maxNameLength → r.Fits →
        r ≠ .chunks →
        p.1 n r = Keys.sequenceRun (p.1 n r).length ∧ (p.1 n r).length < Nat.pow 2 64 ∧
        (p.1 n r).Pairwise (· < ·) ∧
        ∀ db, p.2.db = some db →
          db.table.counterAt (r.bucketIn n).counter = .ok (UInt64.ofNat (p.1 n r).length)) ∧
    (∀ (s : Session) (space : Bytes) (bref : BucketRef) (value : Bytes) (info : Option Meta)
      (e : SessionError), (s.step (.putValue space bref value info)).1 = .error e →
        (s.step (.putValue space bref value info)).2 = s) ∧
    (∀ (s : Session) (db : Database) (space : Bytes) (bref : BucketRef) (b : Bucket)
      (value : Bytes) (info : Option Meta), s.db = some db → db.readOnly = false →
      s.bucketOf space bref = .ok b →
      db.table.counterAt b.counter = .ok (UInt64.ofNat (Nat.pow 2 64 - 1)) →
      s.step (.putValue space bref value info) = (.error (.store .counterExhausted), s) ∧
        StoreError.counterExhausted.kind = .invalidArgument) := by
  intro p
  refine ⟨fun _ _ => Keys.readSequence_eq_ok_iff, fun _ _ => Keys.sequence_lt_sequence_iff, ?_,
    fun _ _ _ _ _ _ he => Session.step_error rfl he,
    fun _ _ _ _ _ value info hdb hro hb hc =>
      ⟨Session.step_putValue_exhausted hdb hro hb hc value info, rfl⟩⟩
  have hstart : (Session.start readOnly).1.Tracks (fun db => db.table.Issues Issued.empty)
      (Table.Issues Issued.empty) :=
    Session.Tracks.start (fun _ _ ht => ht) Table.Issues.empty readOnly
  obtain ⟨h, -⟩ := hstart.issueRun (Session.Owned.start readOnly) hreqs
  refine ⟨Issued.foldl_track_snd _ _ reqs, fun n r hn hr hrc => ?_⟩
  -- the log is read off any table the session keeps; the counter off the open store's
  obtain ⟨t, ht⟩ := h.exists_table
  obtain ⟨hlog, hlen, -⟩ := (ht n r hn hr hrc).log_eq
  refine ⟨hlog, hlen, ?_, fun db hdb => ((h.store db hdb).1 n r hn hr hrc).log_eq.2.2⟩
  rw [hlog]
  exact Keys.sequenceRun_ascending (Nat.le_of_lt hlen)

/-- A sample run: a namespace is made, two values are appended to its object bucket with a
reopen between them; the object bucket's log is the run of keys from `0`. -/
theorem appended_keys_sample_run :
    let ns := Bytes.ofString "ns"
    let reqs := [Request.createNamespace ns,
      .putValue ns .objects (Bytes.ofString "abc") none,
      .reopen {},
      .putValue ns .objects (Bytes.ofString "de") (some ⟨"", 1, 0, []⟩)]
    (∀ r ∈ reqs, r.staysInModel = true) ∧
      let p := reqs.foldl Issued.track (Issued.empty, (Session.start false).1)
      p.1 ns .objects = Keys.sequenceRun (p.1 ns .objects).length := by
  intro ns reqs
  have hreqs : ∀ r ∈ reqs, r.staysInModel = true := by decide
  refine ⟨hreqs, ?_⟩
  exact ((appended_keys_count_from_zero false reqs hreqs).2.2.1.2 ns .objects (by decide) trivial
    (fun hc => by cases hc)).1

end ArchiveStore
