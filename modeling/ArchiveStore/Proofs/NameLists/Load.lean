import ArchiveStore.Proofs.NameLists.Registry
/-!
# Loading stored bucket names that cannot be keyed

A namespace's stored list of bucket names is read back as it decodes, with no name check, so a
list planted by raw writes may hold a name longer than the byte in front of a bucket's name can
count. The length byte keeps a name's length modulo 256 only
(`Keys.bucketPrefix_prefix_of_extends`): a bucket built from such a name would share its keys
with a bucket of a shorter name. Loading never builds one. It registers the stored names in
order and stops, as a broken expectation (`Abort.unkeyableName`), at the first name that does
not fit (`Database.registerStored_aborts`).

`loadBuckets_keeps_prefixes_apart` gathers what a load does on a store whose registered names
all fit (`Database.Owned`), for any stored list that decodes: it answers a count when every
stored name fits and stops at the first one that does not otherwise, and in both cases the
prefix of every registered bucket is apart from that of every bucket whose name fits.
`loadBuckets_planted_sample` is such a load, stopped at a stored name of 256 bytes.
-/

namespace ArchiveStore

namespace Keys

/-- The length byte keeps a name's length modulo 256 only: a name that extends another by a
multiple of 256 bytes gets the same length byte, and the shorter name's bucket prefix starts
the longer name's. -/
theorem bucketPrefix_prefix_of_extends {a b : Bytes} (hab : a <+: b)
    (hlen : a.length % 256 = b.length % 256) (sp : Bytes) (kind : BucketKind) :
    bucketPrefix sp kind a <+: bucketPrefix sp kind b := by
  obtain ⟨r, rfl⟩ := hab
  have hbyte : UInt8.ofNat a.length = UInt8.ofNat (a ++ r).length := by
    rw [← UInt8.toNat_inj, UInt8.toNat_ofNat', UInt8.toNat_ofNat']
    exact hlen
  refine ⟨r, ?_⟩
  simp only [bucketPrefix, lengthPrefixed, List.append_assoc, List.cons_append]
  rw [hbyte]

/-- For names of at most 255 bytes, the prefix of one bucket of a namespace starts the prefix
of another exactly when they are the same bucket. -/
theorem bucketPrefix_prefix_iff {sp a b : Bytes} {k₁ k₂ : BucketKind}
    (ha : a.length ≤ maxNameLength) (hb : b.length ≤ maxNameLength) :
    bucketPrefix sp k₁ a <+: bucketPrefix sp k₂ b ↔ k₁ = k₂ ∧ a = b := by
  constructor
  · rintro ⟨z, hz⟩
    rw [← List.append_nil (bucketPrefix sp k₂ b), bucketPrefix_append_inj ha hb] at hz
    exact ⟨hz.1, hz.2.1⟩
  · rintro ⟨rfl, rfl⟩
    exact List.prefix_refl _

end Keys

namespace Database

variable {db : Database} {space : Bytes} {sp : Space} {stored : List Bytes}

/-- A registered name fits, so a name that does not fit is not registered. -/
theorem lookup_of_long {s : Space} (hs : ∀ p ∈ s.buckets, p.1.length ≤ Keys.maxNameLength)
    {b : Bytes} (hb : Keys.maxNameLength < b.length) : (s.buckets.lookup b).isSome = false := by
  cases hl : s.buckets.lookup b with
  | none => rfl
  | some h =>
    obtain ⟨l₁, l₂, hbuckets, -⟩ := List.lookup_eq_some_iff.1 hl
    have : b.length ≤ Keys.maxNameLength := hs (b, h) (by rw [hbuckets]; simp)
    omega

/-- Registering stored names, from registrations whose names all fit, stops at the first
stored name that does not fit, with its length: the names before it are registered or
passed over, and the name that does not fit is not registered already. -/
theorem registerStored_aborts {s : Space} (next added : Nat) {pre post : List Bytes}
    {b : Bytes} (hs : ∀ p ∈ s.buckets, p.1.length ≤ Keys.maxNameLength)
    (hpre : ∀ x ∈ pre, x.length ≤ Keys.maxNameLength) (hb : Keys.maxNameLength < b.length) :
    (registerStored s next added (pre ++ b :: post)).2.2 =
      .error (.aborted (.unkeyableName b.length)) := by
  induction pre generalizing s next added with
  | nil =>
    rw [List.nil_append, registerStored, lookup_of_long hs hb, if_neg Bool.false_ne_true,
      if_pos hb]
  | cons x pre ih =>
    have hx := hpre x List.mem_cons_self
    have hrest : ∀ y ∈ pre, y.length ≤ Keys.maxNameLength :=
      fun y hy => hpre y (List.mem_cons_of_mem x hy)
    rw [List.cons_append, registerStored]
    split
    · exact ih next added hs hrest
    · -- `x` fits: it is registered, and the registered names still fit
      rw [if_neg (Nat.not_lt.2 hx)]
      exact ih (next + 1) (added + 1) (names_fit_append hs hx next) hrest

/-- The answer of a load is the answer of the walk over the stored names. -/
theorem loadBuckets_fst (hsp : db.space? space = some sp)
    (hstored : db.storedBuckets space = .ok stored) :
    (db.loadBuckets space).1 = (registerStored sp db.nextHandle 0 stored).2.2 := by
  unfold loadBuckets
  rw [requireSpace_eq_ok_iff.2 hsp, hstored]

end Database

/-- Loading the stored bucket names of a registered namespace, on a store whose registered
names all fit their length byte, and for any stored list that decodes. When every stored name
fits, the load answers how many it registered; otherwise it stops, as a broken expectation, at
the first name that does not fit. Either way every registered name still fits, so inside the
namespace the prefix of a registered bucket starts, or is started by, the prefix of a bucket
whose name fits only when the two are the same bucket. -/
theorem loadBuckets_keeps_prefixes_apart {db : Database} {space : Bytes} {sp : Space}
    {stored : List Bytes} (h : db.Owned) (hsp : db.space? space = some sp)
    (hstored : db.storedBuckets space = .ok stored) :
    ((∀ b ∈ stored, b.length ≤ Keys.maxNameLength) →
      ∃ n, (db.loadBuckets space).1 = .ok n) ∧
    (∀ pre b post, stored = pre ++ b :: post →
      (∀ x ∈ pre, x.length ≤ Keys.maxNameLength) → Keys.maxNameLength < b.length →
      (db.loadBuckets space).1 = .error (.aborted (.unkeyableName b.length))) ∧
    ∀ sp', (db.loadBuckets space).2.space? space = some sp' → ∀ p ∈ sp'.buckets,
      ∀ (kind : BucketKind) (name : Bytes), name.length ≤ Keys.maxNameLength →
        ((Keys.bucketPrefix (Space.keyPrefix space) .user p.1 <+:
            Keys.bucketPrefix (Space.keyPrefix space) kind name ∨
          Keys.bucketPrefix (Space.keyPrefix space) kind name <+:
            Keys.bucketPrefix (Space.keyPrefix space) .user p.1) ↔
          kind = .user ∧ name = p.1) := by
  refine ⟨fun hfit => ?_, fun pre b post hpost hpre hb => ?_,
    fun sp' hsp' p hp kind name hn => ?_⟩
  · obtain ⟨new, -, heq⟩ := Database.loadBuckets_eq hsp hstored hfit
    exact ⟨new.length, by rw [heq]⟩
  · have hmem := (Database.space?_eq_some hsp).1
    rw [Database.loadBuckets_fst hsp hstored, hpost]
    exact Database.registerStored_aborts _ _ (h.buckets sp hmem) hpre hb
  · -- the registered names still fit after the load, and prefixes of fitting names are apart
    have hp' : p.1.length ≤ Keys.maxNameLength :=
      (h.loadBuckets space).buckets sp' (Database.space?_eq_some hsp').1 p hp
    constructor
    · rintro (hpre | hpre)
      · obtain ⟨hk, hname⟩ := (Keys.bucketPrefix_prefix_iff hp' hn).1 hpre
        exact ⟨hk.symm, hname.symm⟩
      · exact (Keys.bucketPrefix_prefix_iff hn hp').1 hpre
    · rintro ⟨rfl, rfl⟩
      exact .inl (List.prefix_refl _)

namespace Database

/-- A name of 256 bytes, one more than the length byte in front of a bucket's name counts. -/
def unkeyableName : Bytes := List.replicate 256 0x78

/-- A store, open for writing, that registers the namespace `ns` with no buckets and holds as
its stored bucket list the one name `unkeyableName`, as a raw write can leave it. -/
def plantedStore : Database where
  table := Table.empty.insert (Keys.bucketList (Space.keyPrefix (Bytes.ofString "ns")))
    (NameList.pack [unkeyableName])
  readOnly := false
  spaces := [⟨Bytes.ofString "ns", 0, []⟩]
  nextHandle := 1

end Database

/-- Loading the planted list of `ns` stops at its 256-byte name, as a broken expectation. -/
theorem loadBuckets_planted_sample :
    Database.plantedStore.Owned ∧
    Database.plantedStore.space? (Bytes.ofString "ns") = some ⟨Bytes.ofString "ns", 0, []⟩ ∧
    Database.plantedStore.storedBuckets (Bytes.ofString "ns") = .ok [Database.unkeyableName] ∧
    (Database.plantedStore.loadBuckets (Bytes.ofString "ns")).1 =
      .error (.aborted (.unkeyableName 256)) := by
  have hns : (Bytes.ofString "ns").length ≤ Keys.maxNameLength := by decide
  have hown : Database.plantedStore.Owned :=
    ⟨Table.ChunksOwned.empty.insert_bucketList hns _,
      fun s hs => by rw [List.mem_singleton.1 hs]; exact hns,
      fun s hs p hp => by rw [List.mem_singleton.1 hs] at hp; cases hp⟩
  have hsp : Database.plantedStore.space? (Bytes.ofString "ns") =
      some ⟨Bytes.ofString "ns", 0, []⟩ := by
    decide
  have hlen : Database.unkeyableName.length = 256 := List.length_replicate
  have hstored : Database.plantedStore.storedBuckets (Bytes.ofString "ns") =
      .ok [Database.unkeyableName] := by
    simp only [Database.storedBuckets, NameList.read, Database.plantedStore, Table.get?_insert,
      if_true]
    exact NameList.decode_pack (by decide) fun x hx => by
      rw [List.mem_singleton.1 hx, hlen]
      decide
  obtain ⟨-, habort, -⟩ := loadBuckets_keeps_prefixes_apart hown hsp hstored
  refine ⟨hown, hsp, hstored, ?_⟩
  rw [← hlen]
  exact habort [] _ [] rfl (by simp) (by rw [hlen]; decide)

end ArchiveStore
