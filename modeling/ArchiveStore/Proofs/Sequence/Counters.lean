import ArchiveStore.Proofs.Session.Logs
/-!
# What the counters of data buckets hand out

An append into a bucket takes the number its counter holds, hands it out as a key of eight
bytes, most significant first (`Keys.sequence`), and raises the counter by one. This module
says what that hands out:

* `Keys.readSequence_eq_ok_iff`: reading eight bytes back as a number accepts exactly the
  keys of numbers, and gives the number; `Keys.sequence_lt_sequence_iff`: the byte order of
  keys is the order of their numbers.
* `Keys.sequenceRun k`: the keys of the numbers `0` to `k - 1`, in order, which ascend
  (`Keys.sequenceRun_ascending`).
* `Issued`: for each namespace and bucket, the keys the appends into it returned since it was
  last emptied; `Table.Issues I t`: the log in `I` of each data bucket is the `sequenceRun` of
  the number its counter in `t` holds.
* How the writes move `Table.Issues`: an append adds the key it hands out to its bucket's log
  (`Table.Issues.appendIn`, `Database.issues_putValue`); emptying a bucket or a namespace
  clears their logs; every other write keeps them.
* `Database.putValue_exhausted`: at the largest number an append fails and hands out nothing.
-/

namespace ArchiveStore

open Bucket Table.ChunksOwned

namespace Bytes

theorem toNatLE_append (as bs : Bytes) :
    toNatLE (as ++ bs) = toNatLE as + Nat.pow 256 as.length * toNatLE bs := by
  induction as with
  | nil => simp [toNatLE]
  | cons a as ih =>
    simp only [List.cons_append, toNatLE, ih, List.length_cons, Nat.pow_eq, Nat.pow_succ]
    rw [Nat.mul_add, Nat.add_assoc, Nat.mul_comm (256 ^ as.length) 256, Nat.mul_assoc]

theorem toNatBE_cons (b : UInt8) (bs : Bytes) :
    toNatBE (b :: bs) = b.toNat * Nat.pow 256 bs.length + toNatBE bs := by
  simp only [toNatBE, List.reverse_cons, toNatLE_append, List.length_reverse, toNatLE,
    Nat.mul_zero, Nat.add_zero]
  rw [Nat.add_comm, Nat.mul_comm]

/-- Byte strings of one length are in byte order exactly when the numbers they write, most
significant byte first, are in order. -/
theorem lt_iff_toNatBE_lt : ∀ {xs ys : Bytes}, xs.length = ys.length →
    (xs < ys ↔ toNatBE xs < toNatBE ys)
  | [], [], _ => by simp [toNatBE, toNatLE]
  | x :: xs, y :: ys, h => by
    have hlen : xs.length = ys.length := by simpa using h
    have hx := toNatBE_lt xs
    have hy := toNatBE_lt ys
    rw [List.cons_lt_cons_iff, toNatBE_cons, toNatBE_cons, lt_iff_toNatBE_lt hlen, ← hlen,
      UInt8.lt_iff_toNat_lt, ← UInt8.toNat_inj]
    rw [← hlen] at hy
    -- the first bytes weigh `B` each, more than all the bytes after them
    generalize Nat.pow 256 xs.length = B at hx hy
    constructor
    · rintro (hlt | ⟨heq, hlt⟩)
      · calc x.toNat * B + toNatBE xs < (x.toNat + 1) * B := by rw [Nat.succ_mul]; omega
          _ ≤ y.toNat * B := Nat.mul_le_mul_right _ hlt
          _ ≤ y.toNat * B + toNatBE ys := Nat.le_add_right _ _
      · rw [heq]
        omega
    · intro hlt
      rcases Nat.lt_trichotomy x.toNat y.toNat with hxy | hxy | hxy
      · exact .inl hxy
      · refine .inr ⟨hxy, ?_⟩
        rw [hxy] at hlt
        omega
      · have hge : (y.toNat + 1) * B ≤ x.toNat * B := Nat.mul_le_mul_right _ hxy
        rw [Nat.succ_mul] at hge
        omega

end Bytes

namespace Keys

/-- Reading eight bytes as a number accepts exactly the keys of numbers, and gives back the
number. -/
theorem readSequence_eq_ok_iff {bs : Bytes} {n : UInt64} :
    readSequence bs = .ok n ↔ bs = sequence n := by
  constructor
  · intro h
    unfold readSequence at h
    split at h
    next hlen =>
      cases h
      have hlt : Bytes.toNatBE bs < UInt64.size := by
        have hbound := Bytes.toNatBE_lt bs
        rw [hlen] at hbound
        exact hbound
      rw [sequence, UInt64.toNat_ofNat_of_lt' hlt, ← hlen, Bytes.ofNatBE_toNatBE]
    · cases h
  · rintro rfl
    exact readSequence_sequence n

/-- The byte order of keys handed out is the order of their numbers. -/
theorem sequence_lt_sequence_iff {a b : UInt64} : sequence a < sequence b ↔ a < b := by
  have ha : a.toNat < Nat.pow 256 8 := UInt64.toNat_lt_size a
  have hb : b.toNat < Nat.pow 256 8 := UInt64.toNat_lt_size b
  rw [Bytes.lt_iff_toNatBE_lt (by simp [sequence]), sequence, sequence, Bytes.toNatBE_ofNatBE,
    Bytes.toNatBE_ofNatBE, Nat.mod_eq_of_lt ha, Nat.mod_eq_of_lt hb, UInt64.lt_iff_toNat_lt]

/-- The keys of the numbers `0` to `k - 1`, in order: what a counter that starts at zero hands
out first. -/
def sequenceRun (k : Nat) : List Bytes := (List.range k).map fun i => sequence (UInt64.ofNat i)

@[simp] theorem length_sequenceRun (k : Nat) : (sequenceRun k).length = k := by
  simp [sequenceRun]

theorem sequenceRun_succ (k : Nat) :
    sequenceRun (k + 1) = sequenceRun k ++ [sequence (UInt64.ofNat k)] := by
  simp [sequenceRun, List.range_succ]

/-- Up to 2^64 keys, the keys a counter hands out ascend, in byte order as by number. -/
theorem sequenceRun_ascending {k : Nat} (hk : k ≤ Nat.pow 2 64) :
    (sequenceRun k).Pairwise (· < ·) := by
  unfold sequenceRun
  rw [List.pairwise_map]
  refine List.pairwise_lt_range.imp_of_mem fun {i j} hi hj hij => ?_
  have hi' : i < UInt64.size := Nat.lt_of_lt_of_le (List.mem_range.1 hi) hk
  have hj' : j < UInt64.size := Nat.lt_of_lt_of_le (List.mem_range.1 hj) hk
  rw [sequence_lt_sequence_iff, UInt64.lt_iff_toNat_lt, UInt64.toNat_ofNat_of_lt' hi',
    UInt64.toNat_ofNat_of_lt' hj']
  exact hij

end Keys

/-! ## The log of keys handed out -/

/-- For each namespace name and bucket, the keys the appends into the bucket returned since it
was last emptied, in the order they were returned. -/
def Issued := Bytes → BucketRef → List Bytes

namespace Issued

/-- No key handed out anywhere. -/
def empty : Issued := fun _ _ => []

/-- The log with a key that an append into a bucket handed out. -/
def push (I : Issued) (space : Bytes) (b : BucketRef) (key : Bytes) : Issued :=
  fun n r => if n = space ∧ r = b then I n r ++ [key] else I n r

/-- The log with a bucket emptied. -/
def clearBucket (I : Issued) (space : Bytes) (b : BucketRef) : Issued :=
  fun n r => if n = space ∧ r = b then [] else I n r

/-- The log with a namespace emptied. -/
def clearSpace (I : Issued) (space : Bytes) : Issued :=
  fun n r => if n = space then [] else I n r

/-- The log after a request of a session, given its answer: an append that succeeded adds the
key it returned, emptying a user bucket or a namespace clears their logs, and every other
request, and every request that failed, leaves the log alone. -/
def after (I : Issued) : Request → Except SessionError Reply → Issued
  | .putValue space b _ _, .ok (.bytes key) => I.push space b key
  | .deleteNamespace space, .ok _ => I.clearSpace space
  | .deleteBucket space name, .ok _ => I.clearBucket space (.user name)
  | _, _ => I

/-- Carries out a request of a session and moves the log along with its answer. -/
def track (p : Issued × Session) (r : Request) : Issued × Session :=
  let (reply, s) := p.2.step r
  (p.1.after r reply, s)

variable {I : Issued} {space n key : Bytes} {b r : BucketRef}

@[simp] theorem empty_apply : empty n r = [] := rfl

@[simp] theorem push_apply :
    I.push space b key n r = if n = space ∧ r = b then I n r ++ [key] else I n r := rfl

@[simp] theorem clearBucket_apply :
    I.clearBucket space b n r = if n = space ∧ r = b then [] else I n r := rfl

@[simp] theorem clearSpace_apply : I.clearSpace space n r = if n = space then [] else I n r :=
  rfl

end Issued

/-- What the log `I` and the table `t` say of one bucket: its counter holds a number `k` below
2^64, and the log holds the keys of the numbers `0` to `k - 1`. -/
def Table.IssuesAt (I : Issued) (t : Table) (n : Bytes) (r : BucketRef) : Prop :=
  ∃ k, k < Nat.pow 2 64 ∧ I n r = Keys.sequenceRun k ∧
    t.counterAt (r.bucketIn n).counter = .ok (UInt64.ofNat k)

/-- Every data bucket of every namespace whose name can be keyed has handed out, since it was
last emptied, exactly the keys of the numbers below its counter, in order. -/
def Table.Issues (I : Issued) (t : Table) : Prop :=
  ∀ n r, n.length ≤ Keys.maxNameLength → r.Fits → r ≠ .chunks → t.IssuesAt I n r

namespace BucketRef

variable {r r' : BucketRef} {n : Bytes}

/-- In one namespace, two buckets have two counters. -/
theorem counter_bucketIn_ne (hr : r.Fits) (hr' : r'.Fits) (hne : r' ≠ r) :
    (r'.bucketIn n).counter ≠ (r.bucketIn n).counter := by
  intro heq
  obtain ⟨hk, hname⟩ := (counter_inj (by simp) (name_le hr') (name_le hr)).1 heq
  exact hne (eq_of_bucketIn hk hname)

/-- In one namespace, a data bucket's counter is not the chunk counter. -/
theorem counter_ne_chunkCounter (hr : r.Fits) (hrc : r ≠ .chunks) :
    (r.bucketIn n).counter ≠ (Bucket.chunks (Keys.namespacePrefix n)).counter := by
  rw [← chunks_bucketIn]
  exact counter_bucketIn_ne trivial hr hrc

end BucketRef

namespace Table.IssuesAt

variable {I I' : Issued} {t t' : Table} {n : Bytes} {r : BucketRef}

/-- A bucket whose counter record and log stay keeps what it handed out. -/
theorem congr (h : t.IssuesAt I n r)
    (hget : t'.get? (r.bucketIn n).counter = t.get? (r.bucketIn n).counter)
    (hI : I' n r = I n r) : t'.IssuesAt I' n r := by
  obtain ⟨k, hk, hlog, hc⟩ := h
  exact ⟨k, hk, hI.trans hlog, (counterAt_congr hget).trans hc⟩

/-- A bucket whose counter record is gone, with its log cleared, has handed out nothing. -/
theorem cleared (hget : t'.get? (r.bucketIn n).counter = none) (hI : I' n r = []) :
    t'.IssuesAt I' n r :=
  ⟨0, Nat.pos_of_ne_zero (by decide), hI, counterAt_of_get?_none hget⟩

/-- The log is the run of keys as long as itself, and the counter stands at its length. -/
theorem log_eq (h : t.IssuesAt I n r) :
    I n r = Keys.sequenceRun (I n r).length ∧ (I n r).length < Nat.pow 2 64 ∧
      t.counterAt (r.bucketIn n).counter = .ok (UInt64.ofNat (I n r).length) := by
  obtain ⟨k, hk, hlog, hc⟩ := h
  have hlen : (I n r).length = k := by rw [hlog, Keys.length_sequenceRun]
  rw [hlen]
  exact ⟨hlog, hk, hc⟩

end Table.IssuesAt

namespace Table.Issues

variable {I I' : Issued} {t t' : Table} {n : Bytes} {r : BucketRef}

/-- The empty table has handed out nothing. -/
theorem empty : Table.empty.Issues Issued.empty :=
  fun _ _ _ _ _ => IssuesAt.cleared get?_empty rfl

/-- A table that agrees on the keys of every namespace has handed out the same. -/
theorem congr (h : t.Issues I)
    (hsame : ∀ n a, n.length ≤ Keys.maxNameLength → Keys.namespacePrefix n <+: a →
      t'.get? a = t.get? a) : t'.Issues I :=
  fun n r hn hr hrc => (h n r hn hr hrc).congr
    (hsame n _ hn (by simpa using space_prefix_counter (r.bucketIn n))) rfl

/-- A change inside one namespace keeps what every other namespace handed out; the namespace
changed must show its own. -/
theorem update (h : t.Issues I) (hn : n.length ≤ Keys.maxNameLength)
    (hsame : ∀ a, ¬ Keys.namespacePrefix n <+: a → t'.get? a = t.get? a)
    (hother : ∀ n', n' ≠ n → I' n' = I n')
    (hhere : ∀ r : BucketRef, r.Fits → r ≠ .chunks → t'.IssuesAt I' n r) :
    t'.Issues I' := by
  intro n' r hn' hr hrc
  by_cases heq : n' = n
  · subst heq
    exact hhere r hr hrc
  -- a counter of another namespace lies outside this one
  have hout : ¬ Keys.namespacePrefix n <+: (r.bucketIn n').counter := fun hp =>
    heq (Keys.eq_of_namespacePrefix_prefix hn' hn
      (by simpa using space_prefix_counter (r.bucketIn n')) hp)
  exact (h n' r hn' hr hrc).congr (hsame _ hout) (congrFun (hother n' heq) r)

/-- A change inside one namespace that keeps its data counters hands out nothing. -/
theorem keep (h : t.Issues I) (hn : n.length ≤ Keys.maxNameLength)
    (hsame : ∀ a, ¬ Keys.namespacePrefix n <+: a → t'.get? a = t.get? a)
    (hctr : ∀ r : BucketRef, r.Fits → r ≠ .chunks →
      t'.get? (r.bucketIn n).counter = t.get? (r.bucketIn n).counter) : t'.Issues I :=
  h.update hn hsame (fun _ _ => rfl) fun r hr hrc => (h n r hn hr hrc).congr (hctr r hr hrc) rfl

/-- Emptying a namespace clears the logs of its buckets: their counters go with the rest. -/
theorem erasePrefix (h : t.Issues I) (hn : n.length ≤ Keys.maxNameLength) :
    (t.erasePrefix (Keys.namespacePrefix n)).Issues (I.clearSpace n) := by
  refine h.update hn (fun a ha => by rw [get?_erasePrefix, if_neg ha]) (fun n' hne => ?_)
    fun r _ _ => IssuesAt.cleared ?_ (by simp)
  · funext r
    simp [hne]
  · rw [get?_erasePrefix, if_pos (by simpa using space_prefix_counter (r.bucketIn n))]

/-- Adding a namespace name to the stored list hands out nothing: the list lies outside every
namespace. -/
theorem addIn_namespaceList (h : t.Issues I) {name : Bytes} {added : Bool}
    (hadd : NameList.addIn Keys.namespaceList name t = .ok (added, t')) : t'.Issues I := by
  rcases NameList.addIn_eq_ok hadd with rfl | ⟨v, rfl⟩
  · exact h
  · refine h.congr fun n a _ ha => ?_
    rw [get?_insert, if_neg fun (heq : a = Keys.namespaceList) =>
      Keys.not_namespacePrefix_prefix_namespaceList n (heq ▸ ha)]

/-- Adding a bucket name to a namespace's stored list hands out nothing: the list is no
counter. -/
theorem addIn_bucketList (h : t.Issues I) (hn : n.length ≤ Keys.maxNameLength) {name : Bytes}
    {added : Bool}
    (hadd : NameList.addIn (Keys.bucketList (Keys.namespacePrefix n)) name t = .ok (added, t')) :
    t'.Issues I := by
  rcases NameList.addIn_eq_ok hadd with rfl | ⟨v, rfl⟩
  · exact h
  · have hlist : Keys.namespacePrefix n <+: Keys.bucketList (Keys.namespacePrefix n) :=
      ⟨_, rfl⟩
    refine h.keep hn (fun a ha => ?_) fun r _ _ => ?_
    · rw [get?_insert, if_neg (ne_of_outside hlist ha)]
    · have hne : (r.bucketIn n).counter ≠ Keys.bucketList (Keys.namespacePrefix n) := by
        rw [counter_eq, BucketRef.space_bucketIn]
        exact bucketPrefix_ne_bucketList
      rw [get?_insert, if_neg hne]

section Writes

variable (h : t.Issues I) (hn : n.length ≤ Keys.maxNameLength) (hr : r.Fits) (hrc : r ≠ .chunks)
include h hn hr hrc

/-- A put into a data bucket hands out nothing: it writes the bucket's entry, the chunk
bucket's entries and the chunk counter, none of them the counter of a data bucket. -/
theorem putIn {key value : Bytes} {info : Option Meta} {u : Unit}
    (hput : (r.bucketIn n).putIn key value info t = .ok (u, t')) : t'.Issues I := by
  have hb : (r.bucketIn n).IsData (Keys.namespacePrefix n) := r.isData hr hrc
  have hκ₀ : DataKey (Keys.namespacePrefix n) ((r.bucketIn n).entryKey key) :=
    ⟨_, key, hb, rfl⟩
  obtain ⟨c₀, ps, record, -, -, rfl⟩ := putIn_eq_ok hb.chunked hput
  rw [BucketRef.space_bucketIn]
  refine h.keep hn (fun a ha => ?_) fun r' hr' hrc' => ?_
  · rw [get?_insert, if_neg (ne_of_outside hκ₀.within_space ha),
      get?_release_of_ne fun x => ne_of_outside (chunk_in_namespace x) ha,
      get?_appendPlain_of_ne (ne_of_outside chunkCounter_in_namespace ha)
        fun k _ => ne_of_outside (chunk_in_namespace k) ha]
  · rw [get?_insert, if_neg (Shows.counter_ne_entryKey hr hr' key),
      get?_release_of_ne (Shows.counter_ne_chunk hr'),
      get?_appendPlain_of_ne (BucketRef.counter_ne_chunkCounter hr' hrc')
        fun k _ => Shows.counter_ne_chunk hr' k]

/-- Removing an entry of a data bucket hands out nothing. -/
theorem deleteIn {key : Bytes} {found : Bool}
    (hdel : (r.bucketIn n).deleteIn key t = .ok (found, t')) : t'.Issues I := by
  have hb : (r.bucketIn n).IsData (Keys.namespacePrefix n) := r.isData hr hrc
  have hκ₀ : DataKey (Keys.namespacePrefix n) ((r.bucketIn n).entryKey key) :=
    ⟨_, key, hb, rfl⟩
  rw [deleteIn_eq hb.chunked] at hdel
  simp only [Except.ok.injEq, Prod.mk.injEq] at hdel
  obtain ⟨-, rfl⟩ := hdel
  rw [BucketRef.space_bucketIn]
  refine h.keep hn (fun a ha => ?_) fun r' hr' _ => ?_
  · rw [get?_erase, if_neg (ne_of_outside hκ₀.within_space ha),
      get?_release_of_ne fun x => ne_of_outside (chunk_in_namespace x) ha]
  · rw [get?_erase, if_neg (Shows.counter_ne_entryKey hr hr' key),
      get?_release_of_ne (Shows.counter_ne_chunk hr')]

/-- Raising a data bucket's counter by one, from the number `c` it holds, hands out the key of
`c`. -/
theorem raise {c : UInt64} (hc : t.counterAt (r.bucketIn n).counter = .ok c)
    (hfit : c.toNat + 1 < Nat.pow 2 64) :
    (t.insert (r.bucketIn n).counter (Keys.sequence (c + 1))).Issues
      (I.push n r (Keys.sequence c)) := by
  obtain ⟨k, hk, hlog, hck⟩ := h n r hn hr hrc
  have hsize : UInt64.size = Nat.pow 2 64 := rfl
  have hcnum : c = UInt64.ofNat k := Except.ok.inj (hc.symm.trans hck)
  have hck' : c.toNat = k := by
    rw [hcnum]
    exact UInt64.toNat_ofNat_of_lt' hk
  refine h.update hn (fun a ha => ?_) (fun n' hne => ?_) fun r' hr' hrc' => ?_
  · rw [get?_insert,
      if_neg (ne_of_outside (by simpa using space_prefix_counter (r.bucketIn n)) ha)]
  · funext r'
    simp [hne]
  · by_cases heq : r' = r
    · -- the bucket's own counter moves to `k + 1`, and its log gains the key of `k`
      subst heq
      refine ⟨k + 1, by omega, ?_, ?_⟩
      · simp [hlog, Keys.sequenceRun_succ, hcnum]
      · have hsucc : c + 1 = UInt64.ofNat (k + 1) := by
          rw [← UInt64.toNat_inj, toNat_succ hfit, UInt64.toNat_ofNat_of_lt' (by omega), hck']
        simp [counterAt, Keys.readSequence_sequence, hsucc]
    · exact (h n r' hn hr' hrc').congr
        (by rw [get?_insert, if_neg (BucketRef.counter_bucketIn_ne hr hr' heq)])
        (by simp [heq])

/-- An append into a data bucket adds the key it hands out to the bucket's log. -/
theorem appendIn {value key : Bytes} {info : Option Meta}
    (happ : (r.bucketIn n).appendIn value info t = .ok (key, t')) :
    t'.Issues (I.push n r key) := by
  obtain ⟨c, hc, hfit, rfl, hput⟩ := appendIn_eq_ok happ
  exact (h.raise hn hr hrc hc hfit).putIn hn hr hrc hput

/-- Emptying a data bucket clears its log: its counter goes with its entries. -/
theorem clearIn {u : Unit} (hclr : (r.bucketIn n).clearIn t = .ok (u, t')) :
    t'.Issues (I.clearBucket n r) := by
  have hb : (r.bucketIn n).IsData (Keys.namespacePrefix n) := r.isData hr hrc
  rw [clearIn_eq hb.chunked] at hclr
  cases hclr
  rw [BucketRef.space_bucketIn]
  refine h.update hn (fun a ha => ?_) (fun n' hne => ?_) fun r' hr' hrc' => ?_
  · rw [get?_erasePrefix, if_neg fun hp => ha (BucketRef.namespacePrefix_prefix_keyPrefix.trans hp),
      get?_eraseAll, if_neg]
    simp only [List.mem_map, not_exists, not_and]
    exact fun x _ hx => ne_of_outside (chunk_in_namespace x) ha hx.symm
  · funext r'
    simp [hne]
  · by_cases heq : r' = r
    · subst heq
      refine IssuesAt.cleared ?_ (by simp)
      rw [get?_erasePrefix, if_pos ((BucketRef.keyPrefix_prefix_counter_iff hr hr').2 rfl)]
    · refine (h n r' hn hr' hrc').congr ?_ (by simp [heq])
      rw [get?_erasePrefix,
        if_neg fun hp => heq ((BucketRef.keyPrefix_prefix_counter_iff hr hr').1 hp).symm,
        get?_eraseAll, if_neg]
      simp only [List.mem_map, not_exists, not_and]
      exact fun x _ hx => Shows.counter_ne_chunk hr' x hx.symm

end Writes

/-- Storing objects one after another in a namespace's object bucket hands out nothing. -/
theorem forIn_putIn (h : t.Issues I) (hn : n.length ≤ Keys.maxNameLength) {objs : List Resource}
    {u : PUnit}
    (hloop : (forIn objs PUnit.unit fun o _ => do
        (Bucket.objects (Keys.namespacePrefix n)).putIn o.key o.data o.info
        pure (ForInStep.yield PUnit.unit) : Txn PUnit) t = .ok (u, t')) :
    t'.Issues I := by
  induction objs generalizing t with
  | nil =>
    cases hloop
    exact h
  | cons o os ih =>
    rw [List.forIn_cons] at hloop
    obtain ⟨step, t₁, hbody, hrest⟩ := bind_run_eq_ok.1 hloop
    obtain ⟨_, t₂, hput, hpure⟩ := bind_run_eq_ok.1 hbody
    simp only [Txn.pure_run, Except.ok.injEq, Prod.mk.injEq] at hpure
    obtain ⟨rfl, rfl⟩ := hpure
    have hput' : (BucketRef.objects.bucketIn n).putIn o.key o.data o.info t = .ok ((), _) := hput
    have hfit : BucketRef.objects.Fits := trivial
    exact ih (Table.Issues.putIn h hn hfit (by decide) hput') hrest

end Table.Issues

namespace Database

variable {db db' : Database} {I : Issued} {n key value : Bytes} {r : BucketRef}
  {info : Option Meta}

section Writes

variable (h : db.table.Issues I)
include h

theorem issues_put (hn : n.length ≤ Keys.maxNameLength) (hr : r.Fits) (hrc : r ≠ .chunks)
    (hp : db.put (r.bucketIn n) key value info = .ok db') :
    db.Leaves db' (Table.Issues I) := by
  obtain ⟨u, hu⟩ := put_eq_ok hp
  exact leaves_update hu fun _ ht => h.putIn hn hr hrc ht

/-- An append that succeeded logs the key it handed out. -/
theorem issues_putValue (hn : n.length ≤ Keys.maxNameLength) (hr : r.Fits) (hrc : r ≠ .chunks)
    (hp : db.putValue (r.bucketIn n) value info = .ok (key, db')) :
    db.Leaves db' (Table.Issues (I.push n r key)) :=
  leaves_update hp fun _ ht => h.appendIn hn hr hrc ht

theorem issues_delete (hn : n.length ≤ Keys.maxNameLength) (hr : r.Fits) (hrc : r ≠ .chunks)
    (hd : db.delete (r.bucketIn n) key = .ok db') : db.Leaves db' (Table.Issues I) := by
  obtain ⟨found, hu⟩ := delete_eq_ok hd
  exact leaves_update hu fun _ ht => h.deleteIn hn hr hrc ht

theorem issues_putDocument (hn : n.length ≤ Keys.maxNameLength) {doc : Document}
    (hp : db.putDocument (BucketRef.documents.bucketIn n) key doc = .ok db') :
    db.Leaves db' (Table.Issues I) := by
  obtain ⟨encoded, -, hp⟩ := putDocument_eq_ok hp
  have hfit : BucketRef.documents.Fits := trivial
  exact issues_put h hn hfit (by decide) hp

/-- The combined write puts objects and a document by key, so it hands out no number. -/
theorem issues_putDocumentWithObjects (hn : n.length ≤ Keys.maxNameLength) {doc : Document}
    {objects : List Resource} (hp : db.putDocumentWithObjects n key doc objects = .ok db') :
    db.Leaves db' (Table.Issues I) := by
  obtain ⟨hro, t₁, encoded, u, t', hloop, -, hdoc, rfl⟩ := putDocumentWithObjects_eq_ok hp
  have hfit : BucketRef.documents.Fits := trivial
  exact ⟨hro, hro, (h.forIn_putIn hn hloop).putIn hn hfit (by decide) hdoc⟩

/-- Clearing a registered user bucket clears its log. -/
theorem issues_deleteBucket (hown : db.Owned) {name : Bytes}
    (hd : db.deleteBucket n name = .ok db') :
    db.Leaves db' (Table.Issues (I.clearBucket n (.user name))) := by
  obtain ⟨s, hb, u, hmem, hsn, hbmem, hu⟩ := deleteBucket_eq_ok hd
  -- a registered bucket has a name that can be keyed
  have hfit : (BucketRef.user name).Fits := hown.buckets s hmem (name, hb) hbmem
  exact leaves_update hu fun _ ht =>
    h.clearIn (hsn ▸ hown.spaces s hmem) hfit (fun hc => by cases hc) ht

/-- Registering a namespace hands out no number. -/
theorem issues_createNamespace {name : Bytes} {hd : Nat}
    (hcr : db.createNamespace name = .ok (hd, db')) : db'.table.Issues I := by
  rcases (createNamespace_eq_ok hcr).2 with ⟨-, -, -, rfl⟩ | ⟨-, -, t, ht, rfl⟩
  · exact h
  · rcases ht with ⟨-, rfl⟩ | ⟨-, added, hadd⟩
    · exact h
    · exact h.addIn_namespaceList hadd

/-- Registering a user bucket hands out no number. -/
theorem issues_createBucket (hown : db.Owned) {space name : Bytes} {hd : Nat}
    (hcr : db.createBucket space name = .ok (hd, db')) : db'.table.Issues I := by
  obtain ⟨-, sp, hsp, hcases⟩ := createBucket_eq_ok hcr
  rcases hcases with ⟨-, rfl⟩ | ⟨-, -, t, ht, rfl⟩
  · exact h
  · rcases ht with ⟨-, rfl⟩ | ⟨-, added, hadd⟩
    · exact h
    · obtain ⟨hmem, hname⟩ := space?_eq_some hsp
      exact h.addIn_bucketList (hname ▸ hown.spaces sp hmem) hadd

end Writes

/-- Emptying a namespace clears the logs of all its buckets. -/
theorem issues_deleteNamespace (h : db.table.Issues I) (hn : n.length ≤ Keys.maxNameLength)
    (hd : db.deleteNamespace n = .ok db') :
    db.Leaves db' (Table.Issues (I.clearSpace n)) := by
  obtain ⟨sp, -, hro, rfl⟩ := deleteNamespace_eq_ok hd
  exact ⟨hro, hro, h.erasePrefix hn⟩

/-- On a store open for writing, an append to a bucket whose counter stands at the largest
64-bit number fails with the counter exhausted: the counter does not wrap. -/
theorem putValue_exhausted (hro : db.readOnly = false) {b : Bucket}
    (hc : db.table.counterAt b.counter = .ok (UInt64.ofNat (Nat.pow 2 64 - 1))) :
    db.putValue b value info = .error .counterExhausted := by
  have hnext : Txn.nextSequence b.counter db.table = .error .counterExhausted := by
    rw [Txn.nextSequence_eq, hc]
    rfl
  unfold putValue
  rw [update_eq_error hro]
  unfold Bucket.appendIn
  exact bind_run_of_error hnext

end Database

end ArchiveStore
