import ArchiveStore.Proofs.Cursor.Walk
import ArchiveStore.Proofs.Session.Failures
/-!
# Cursors a session holds

A session keeps its cursors by name. Only a request about a cursor touches it: `advance`
moves it, `find`, `range` and `release` replace or drop it; every other request answered by
the open store, writes included, leaves it as it is (`Session.lookup_cursor_step`). A cursor
holds the table of the moment it was made, so along any run of such requests it is the cursor
made at that moment, advanced once for each `advance` of its name
(`Session.lookup_cursor_runAll`).

`cursor_walks_snapshot` collects what a caller sees: the advances that find an entry are as
many as the bucket held, the keys come in strictly ascending order (descending for a reversed
cursor and for a search), they are exactly the bucket's keys, each value and meta is what a read
of that key returned at that moment, and a cursor that stands nowhere refuses every read as an
invalid argument.
-/

namespace ArchiveStore

/-- Whether a request advances the cursor of a name. -/
def Request.advances (name : String) : Request → Bool
  | .advance n => n == name
  | _ => false

/-- Whether a request neither makes another cursor under a name nor releases it. -/
def Request.keepsCursor (name : String) : Request → Bool
  | .find _ n _ | .range _ _ n _ _ _ | .release n => n != name
  | _ => true

/-- Whether a request is about a cursor at all. -/
def Request.aboutCursors : Request → Bool
  | .find .. | .range .. | .advance _ | .release _ => true
  | _ => false

namespace Session

variable {s : Session} {name : String} {α : Type}

/-- A list keyed by names with one entry set looks that entry up, and the others as before. -/
theorem lookup_setKey {κ β : Type} [BEq κ] [LawfulBEq κ] [DecidableEq κ] {xs : List (κ × β)}
    {k k' : κ} {a : β} : (setKey xs k a).lookup k' = if k' = k then some a else xs.lookup k' := by
  have hfilter : (xs.filter fun e => !(e.1 == k)) = xs.filter fun e => e.1 != k := rfl
  rw [setKey, List.lookup_append, hfilter, lookup_filter_ne]
  by_cases hk : k' = k
  · simp [hk]
  · simp [hk, List.lookup_cons, beq_false_of_ne hk]

theorem change_cursors (f : Database → Except StoreError (α × Database)) :
    (s.change f).2.cursors = s.cursors := by
  unfold Session.change
  split
  · rfl
  · split <;> rfl

/-- A request answered by the open store that is not about a cursor leaves every cursor as it
is, whatever it writes. -/
theorem cursors_step {r : Request} (hr : r.onStore = true) (hc : r.aboutCursors = false) :
    (s.step r).2.cursors = s.cursors := by
  cases r
  case createNamespace | createBucket =>
    dsimp only [Session.step]
    split
    · rfl
    · split <;> rfl
  case loadBuckets =>
    dsimp only [Session.step]
    split
    · rfl
    · split <;> rfl
  case deleteNamespace =>
    exact change_cursors _
  case deleteBucket | putDocumentWithObjects | putDocument | put | putValue | delete =>
    dsimp only [Session.step]
    split
    · rfl
    · exact change_cursors _
  case listBuckets | storedBuckets | getDocument | get | getAt | getMeta | contains | count |
      scan =>
    dsimp only [Session.step]
    split <;> rfl
  case reopen | makeFile | replaceStoreFile | console | dumpTable | setRecord | deleteRecord =>
    simp [Request.onStore] at hr
  case find | range | advance | release =>
    simp [Request.aboutCursors] at hc
  -- the other requests answer from the session as it is
  all_goals rfl

/-- One request answered by the open store that keeps a cursor's name moves that cursor once if
it advances it, and leaves it as it is otherwise. -/
theorem lookup_cursor_step {r : Request} (hr : r.onStore = true) (hk : r.keepsCursor name = true) :
    (s.step r).2.cursors.lookup name =
      if r.advances name then
        (s.cursors.lookup name).map fun h => { h with cursor := h.cursor.advance.2 }
      else s.cursors.lookup name := by
  cases ha : r.aboutCursors
  · -- a request about no cursor changes none
    have hadv : r.advances name = false := by
      cases r <;> simp [Request.aboutCursors, Request.advances] at ha ⊢
    rw [cursors_step hr ha, hadv]
    rfl
  · cases r <;> simp only [Request.aboutCursors, Bool.false_eq_true] at ha
    case find space n query =>
      have hn : name ≠ n := fun h => by simp [Request.keepsCursor, h] at hk
      dsimp only [Session.step]
      split
      · rfl
      · simp [lookup_setKey, hn, Request.advances]
    case range space b n reverse lo hi =>
      have hn : name ≠ n := fun h => by simp [Request.keepsCursor, h] at hk
      dsimp only [Session.step]
      split
      · rfl
      · split
        · rfl
        · simp [lookup_setKey, hn, Request.advances]
    case release n =>
      have hn : name ≠ n := fun h => by simp [Request.keepsCursor, h] at hk
      dsimp only [Session.step]
      split
      · rfl
      · simp [lookup_filter_ne, hn, Request.advances]
    case advance n =>
      dsimp only [Session.step]
      split
      next e he =>
        -- no cursor of that name: nothing moves
        have hnone : s.cursors.lookup n = none := by
          unfold cursorOf at he
          split at he
          · cases he
          · assumption
        by_cases hn : name = n
        · subst hn
          simp [hnone, Request.advances]
        · simp [Request.advances, Ne.symm hn]
      next h hh =>
        have hsome : s.cursors.lookup n = some h := by
          unfold cursorOf at hh
          split at hh
          · cases hh
            assumption
          · cases hh
        by_cases hn : name = n
        · subst hn
          simp [lookup_setKey, hsome, Request.advances]
        · simp [lookup_setKey, hn, Request.advances, Ne.symm hn]

/-- Along a run of requests answered by the open store that keep a cursor's name, the cursor
held under that name is advanced once for each request that advances it. -/
theorem lookup_cursor_runAll {h : HeldCursor} (hh : s.cursors.lookup name = some h)
    {reqs : List Request} (hreqs : ∀ r ∈ reqs, r.onStore = true ∧ r.keepsCursor name = true) :
    (s.runAll reqs).cursors.lookup name =
      some { h with cursor := h.cursor.advanced (reqs.countP (·.advances name)) } := by
  induction reqs generalizing s h with
  | nil => exact hh
  | cons r rs ih =>
    show ((s.step r).2.runAll rs).cursors.lookup name = _
    obtain ⟨hon, hkeep⟩ := hreqs r List.mem_cons_self
    have hstep := lookup_cursor_step (s := s) hon hkeep
    rw [hh] at hstep
    have hrest : ∀ r' ∈ rs, r'.onStore = true ∧ r'.keepsCursor name = true :=
      fun r' hr' => hreqs r' (List.mem_cons_of_mem _ hr')
    rw [List.countP_cons]
    cases hadv : r.advances name
    · rw [hadv, if_neg Bool.false_ne_true] at hstep
      rw [ih hstep hrest]
      simp
    · rw [hadv, if_pos rfl, Option.map_some] at hstep
      -- the first advance comes first: the rest advance the moved cursor
      rw [ih hstep hrest, Cursor.advanced_succ]
      simp

theorem map_error {ε β : Type} {f : α → β} {e : ε} :
    (f <$> (Except.error e : Except ε α)) = .error e :=
  rfl

/-- A range over a whole bucket that succeeds holds, under its name, a cursor over the
bucket's entries in the open store's table of that moment. -/
theorem lookup_range {space : Bytes} {bref : BucketRef} {reverse : Bool} {u : Reply}
    (h : (s.step (.range space bref name reverse none none)).1 = .ok u) :
    ∃ db b, s.db = some db ∧ s.bucketOf space bref = .ok b ∧
      (s.step (.range space bref name reverse none none)).2.cursors.lookup name =
        some ⟨Cursor.make db.table b reverse, false⟩ := by
  cases hb : s.bucketOf space bref with
  | error e => simp [Session.step, hb, Cursor.error_bind] at h
  | ok b =>
    cases hdb : s.requireDb with
    | error e =>
      simp only [step, hb, hdb, bind_pure_comp, map_error, Cursor.ok_bind, reduceCtorEq] at h
    | ok db =>
      refine ⟨db, b, requireDb_eq_ok hdb, rfl, ?_⟩
      simp [Session.step, hb, hdb, Cursor.ok_bind, Cursor.open?, Database.requireFullRange,
        lookup_setKey, pure, Except.pure]

/-- A search that succeeds holds, under its name, a cursor over the namespace's documents in
the open store's table of that moment, walking them in descending key order. -/
theorem lookup_find {space : Bytes} {query : Document} {u : Reply}
    (h : (s.step (.find space name query)).1 = .ok u) :
    ∃ db, s.db = some db ∧
      (s.step (.find space name query)).2.cursors.lookup name =
        some ⟨Cursor.make db.table (Bucket.documents (Space.keyPrefix space)) true, true⟩ := by
  cases hsp : s.requireSpace space with
  | error e => simp [Session.step, bucketOf, hsp, Cursor.error_bind] at h
  | ok u' =>
    cases hdb : s.requireDb with
    | error e =>
      simp only [step, bucketOf, hsp, bind_pure_comp, hdb, map_error, bind_map_left,
        Cursor.ok_bind, reduceCtorEq] at h
    | ok db =>
      refine ⟨db, requireDb_eq_ok hdb, ?_⟩
      simp [Session.step, bucketOf, hsp, hdb, Cursor.ok_bind, lookup_setKey, pure, Except.pure]

end Session

/-- A cursor enumerates exactly its bucket's entries as they stood when it was made. Its
advances find an entry exactly as many times as the bucket counted entries, and never again.
It starts unstarted and ends exhausted, and in both it refuses its key, value and meta as an
invalid argument. In between, it visits the bucket's keys, each once, in strictly ascending
byte order (descending when reversed). It stands on the entry of each key, which lies in that
bucket, in its namespace, and is no counter. It reads the value and meta a read of that key
returned at that moment; in a bucket with a chunk store, it also fails where that read fails.
A session's range over a whole bucket, or its search, holds such a cursor over the table of
that moment. Requests that write, and every other request answered by the open store, leave
the cursor alone; only advancing it moves it. -/
theorem cursor_walks_snapshot :
    (∀ (t : Table) (b : Bucket) (reverse : Bool),
      (∀ n, ((Cursor.make t b reverse).advanced n).advance.1 = true ↔ n < b.count t) ∧
      ((Cursor.make t b reverse).state = .unstarted ∧
        (Cursor.make t b reverse).key = .error (.notPositioned false) ∧
        (Cursor.make t b reverse).value = .error (.notPositioned false) ∧
        (Cursor.make t b reverse).info = .error (.notPositioned false)) ∧
      (∀ n, b.count t < n → ((Cursor.make t b reverse).advanced n).state = .exhausted ∧
        ((Cursor.make t b reverse).advanced n).key = .error (.notPositioned true) ∧
        ((Cursor.make t b reverse).advanced n).value = .error (.notPositioned true) ∧
        ((Cursor.make t b reverse).advanced n).info = .error (.notPositioned true)) ∧
      ∃ ks : List Bytes, ks.length = b.count t ∧
        ks.Pairwise (fun x y => if reverse then y < x else x < y) ∧
        (∀ k, k ∈ ks ↔ b.contains t k = true) ∧
        ∀ i k, ks[i]? = some k →
          (∃ r, ((Cursor.make t b reverse).advanced (i + 1)).state =
            .positioned (b.entryKey k) r ∧ t.get? (b.entryKey k) = some r) ∧
          (∀ (b' : Bucket) (x : Bytes), b'.space = b.space → b.name.length ≤ Keys.maxNameLength →
            b'.name.length ≤ Keys.maxNameLength →
            (b'.entryKey x = b.entryKey k → b'.kind = b.kind ∧ b'.name = b.name) ∧
            b'.counter ≠ b.entryKey k) ∧
          (∀ n n' : Bytes, b.space = Keys.namespacePrefix n → n.length ≤ Keys.maxNameLength →
            n'.length ≤ Keys.maxNameLength → Keys.namespacePrefix n' <+: b.entryKey k → n' = n) ∧
          ((Cursor.make t b reverse).advanced (i + 1)).key = .ok k ∧
          (∀ v, ((Cursor.make t b reverse).advanced (i + 1)).value = .ok v ↔
            ∃ m, b.get t k = .ok (v, m)) ∧
          (∀ v m, b.get t k = .ok (v, m) →
            ((Cursor.make t b reverse).advanced (i + 1)).info = .ok m) ∧
          (b.chunked = true →
            ((Cursor.make t b reverse).advanced (i + 1)).value = (b.get t k).map (·.1))) ∧
    (∀ f, (StoreError.notPositioned f).kind = .invalidArgument) ∧
    (∀ (s : Session) (space : Bytes) (bref : BucketRef) (name : String) (reverse : Bool) (u : Reply),
      (s.step (.range space bref name reverse none none)).1 = .ok u →
      ∃ db b, s.db = some db ∧ s.bucketOf space bref = .ok b ∧
        ∀ reqs : List Request, (∀ r ∈ reqs, r.onStore = true ∧ r.keepsCursor name = true) →
          ((s.step (.range space bref name reverse none none)).2.runAll reqs).cursors.lookup name =
            some ⟨(Cursor.make db.table b reverse).advanced (reqs.countP (·.advances name)),
              false⟩) ∧
    (∀ (s : Session) (space : Bytes) (name : String) (query : Document) (u : Reply),
      (s.step (.find space name query)).1 = .ok u →
      ∃ db, s.db = some db ∧
        ∀ reqs : List Request, (∀ r ∈ reqs, r.onStore = true ∧ r.keepsCursor name = true) →
          ((s.step (.find space name query)).2.runAll reqs).cursors.lookup name =
            some ⟨(Cursor.make db.table (Bucket.documents (Space.keyPrefix space)) true).advanced
              (reqs.countP (·.advances name)), true⟩) := by
  refine ⟨fun t b reverse => ?_, fun f => rfl, fun s space bref name reverse u h => ?_,
    fun s space name query u h => ?_⟩
  · have hs : (Cursor.make t b reverse).state ≠ .exhausted := by simp [Cursor.make]
    refine ⟨fun n => ?_, ?_, fun n hn => ?_, ?_⟩
    · rw [Cursor.advance_advanced hs, Cursor.length_make_pending]
    · exact ⟨rfl, Cursor.reads_of_current_error (Cursor.current_unstarted rfl)⟩
    · have hex := Cursor.make_advanced_exhausted reverse hn
      exact ⟨hex, Cursor.reads_of_current_error (Cursor.current_exhausted hex)⟩
    · -- the keys visited are the caller keys of the cursor's entries, in visiting order
      refine ⟨(Cursor.make t b reverse).pending.map fun e => e.1.drop b.entries.length, ?_, ?_,
        fun k => ?_, fun i k hk => ?_⟩
      · rw [List.length_map, Cursor.length_make_pending]
      · rw [Cursor.map_make_pending]
        cases reverse
        · exact Bucket.callerKeys_ascending
        · exact List.pairwise_reverse.2 Bucket.callerKeys_ascending
      · rw [Cursor.map_make_pending, ← Bucket.mem_callerKeys]
        cases reverse
        · rfl
        · exact List.mem_reverse
      · obtain ⟨hpos, hkey, hvalue, hinfo, hchunked⟩ := Cursor.make_advanced_reads hk
        refine ⟨hpos, fun b' x hsp hlen hlen' => ⟨fun he => ?_, ?_⟩,
          fun n n' hsp hn hn' hp => Bucket.eq_of_namespacePrefix_entryKey hsp hn hn' hp,
          hkey, hvalue, hinfo, hchunked⟩
        · exact ((Bucket.entryKey_inj hsp hlen' hlen).1 he).imp_right And.left
        · exact Ne.symm (Bucket.entryKey_ne_counter hsp.symm hlen hlen')
  · obtain ⟨db, b, hdb, hb, hheld⟩ := Session.lookup_range h
    exact ⟨db, b, hdb, hb, fun reqs hreqs => Session.lookup_cursor_runAll hheld hreqs⟩
  · obtain ⟨db, hdb, hheld⟩ := Session.lookup_find h
    exact ⟨db, hdb, fun reqs hreqs => Session.lookup_cursor_runAll hheld hreqs⟩

end ArchiveStore
