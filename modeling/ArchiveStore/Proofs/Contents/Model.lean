import ArchiveStore.Proofs.Ownership.Sessions
/-!
# The contents of a store, as its callers see them

Every bucket of every namespace behaves as a map of its own, from caller keys to values with
an optional meta, however the store lays the maps out in its one table. `Contents` is that
view: for each namespace name and each bucket a request can name, the entries by key. Its
operations are what the writes of a store promise:

* `Contents.put` sets an entry to a value and the caller's meta, the meta's length set to the
  value's and its chunk list empty (`Contents.entryOf`): which chunks hold a value is the
  store's business, not its callers';
* `Contents.erase` removes an entry, `Contents.clearBucket` every entry of a bucket, and
  `Contents.clearSpace` every entry of every bucket of a namespace;
* `Contents.putObjects` and `Contents.putDocument` are the puts of a combined write.

`Contents.after` moves the contents along one request of a session, given its answer: a
request that failed changes nothing, and a value appended under a fresh key is put under the
key the answer names. `Contents.track` carries out a request and moves the contents along.

`ReadsAs b t key e` is what reading an entry of a table must give when the contents hold `e`
there: `e`'s value and, its chunk list aside, `e`'s meta; for no entry, a missing key.
-/

namespace ArchiveStore

/-- What a caller stored under a key: the value, and its meta if it has one. -/
abbrev Entry := Bytes × Option Meta

/-- The contents of a store: for each namespace name and each bucket of it, the entries by
key. -/
def Contents := Bytes → BucketRef → Bytes → Option Entry

namespace BucketRef

/-- The bucket of a namespace that a reference names. -/
def bucketIn (space : Bytes) : BucketRef → Bucket
  | .documents => Bucket.documents (Space.keyPrefix space)
  | .objects => Bucket.objects (Space.keyPrefix space)
  | .chunks => Bucket.chunks (Space.keyPrefix space)
  | .user name => Bucket.user (Space.keyPrefix space) name

/-- Whether a reference names a bucket whose name can be keyed: a builtin bucket, or a user
bucket named by at most 255 bytes. -/
def Fits : BucketRef → Prop
  | .user name => name.length ≤ Keys.maxNameLength
  | _ => True

end BucketRef

namespace Contents

/-- No entries anywhere. -/
def empty : Contents := fun _ _ _ => none

/-- The entry a caller's put leaves: the value, with the meta's length set to the value's
and no chunk list. -/
def entryOf (value : Bytes) (info : Option Meta) : Entry :=
  (value, info.map fun m => m.storedFor value [])

/-- The contents with an entry set. -/
def put (c : Contents) (space : Bytes) (b : BucketRef) (key value : Bytes)
    (info : Option Meta) : Contents :=
  fun n r k => if n = space ∧ r = b ∧ k = key then some (entryOf value info) else c n r k

/-- The contents without an entry. -/
def erase (c : Contents) (space : Bytes) (b : BucketRef) (key : Bytes) : Contents :=
  fun n r k => if n = space ∧ r = b ∧ k = key then none else c n r k

/-- The contents without the entries of one bucket. -/
def clearBucket (c : Contents) (space : Bytes) (b : BucketRef) : Contents :=
  fun n r k => if n = space ∧ r = b then none else c n r k

/-- The contents without the entries of one namespace. -/
def clearSpace (c : Contents) (space : Bytes) : Contents :=
  fun n r k => if n = space then none else c n r k

/-- The contents with objects put one after another in a namespace's object bucket. -/
def putObjects (c : Contents) (space : Bytes) (objects : List Resource) : Contents :=
  objects.foldl (fun c o => c.put space .objects o.key o.data o.info) c

/-- The contents with a document put, as its stored form, in a namespace's document bucket;
a document with no stored form changes nothing. -/
def putDocument (c : Contents) (space key : Bytes) (doc : Document) : Contents :=
  match doc.encode with
  | .ok encoded => c.put space .documents key encoded none
  | .error _ => c

/-- The contents after a request of a session, given its answer. -/
def after (c : Contents) : Request → Except SessionError Reply → Contents
  | .put space b key value info, .ok _ => c.put space b key value info
  | .putValue space b value info, .ok (.bytes key) => c.put space b key value info
  | .delete space b key, .ok _ => c.erase space b key
  | .putDocument space key doc, .ok _ => c.putDocument space key doc
  | .putDocumentWithObjects space key doc objects, .ok _ =>
    (c.putObjects space objects).putDocument space key doc
  | .deleteNamespace space, .ok _ => c.clearSpace space
  | .deleteBucket space name, .ok _ => c.clearBucket space (.user name)
  | _, _ => c

/-- Carries out a request of a session and moves the contents along with its answer. -/
def track (p : Contents × Session) (r : Request) : Contents × Session :=
  let (reply, s) := p.2.step r
  (p.1.after r reply, s)

variable {c : Contents} {space n key k value : Bytes} {b r : BucketRef} {info : Option Meta}

@[simp] theorem empty_apply : empty n r k = none := rfl

@[simp] theorem put_apply :
    c.put space b key value info n r k =
      if n = space ∧ r = b ∧ k = key then some (entryOf value info) else c n r k := rfl

@[simp] theorem erase_apply :
    c.erase space b key n r k = if n = space ∧ r = b ∧ k = key then none else c n r k := rfl

@[simp] theorem clearBucket_apply :
    c.clearBucket space b n r k = if n = space ∧ r = b then none else c n r k := rfl

@[simp] theorem clearSpace_apply :
    c.clearSpace space n r k = if n = space then none else c n r k := rfl

end Contents

/-- Reading the entry under `key` of bucket `b` in table `t` agrees with `e`: it gives `e`'s
value and, up to the chunk list the store keeps in it, `e`'s meta; where `e` has no entry, it
fails as a missing key of that bucket. -/
def ReadsAs (b : Bucket) (t : Table) (key : Bytes) : Option Entry → Prop
  | none => b.get t key = .error (.missingKey key b.name)
  | some (value, info) =>
    ∃ info', b.get t key = .ok (value, info') ∧ info'.map (fun m => { m with chunks := [] }) = info

/-- Whether a request stays within what the contents describe: it goes through buckets,
reopens the store only in its own directory, and stores no value of 2^64 bytes or more,
whose length a meta could not hold. -/
def Request.staysInModel : Request → Bool
  | .reopen o => o.subdir == ""
  | .put _ b _ value _ | .putValue _ b value _ =>
    b != .chunks && decide (value.length < Nat.pow 2 64)
  | .putDocumentWithObjects _ _ _ objects =>
    objects.all fun o => decide (o.data.length < Nat.pow 2 64)
  | r => r.throughBuckets

/-- The failures a store open for writing may answer a put with: a negative chunk size, an
exhausted sequence counter, or a meta whose packed form needs more than 32 bits of length. -/
def StoreError.refusesValue : StoreError → Bool
  | .negativeChunkSize _ | .counterExhausted | .metaTooLarge _ => true
  | _ => false

end ArchiveStore
