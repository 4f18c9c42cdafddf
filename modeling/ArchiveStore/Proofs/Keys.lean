import ArchiveStore.Bucket.Basic
import ArchiveStore.Proofs.Packed

/-!
# The key layout keeps records apart

Every record of every namespace lives in one ordered table; only the shape of the keys keeps
namespaces, buckets, entries and counters apart, and only prefix scans find a part of it.

* `Keys.withinPrefix_iff`: the bounds `[p, successor p)` of a prefix scan hold exactly the keys
  that start with `p`, the all-`FF` prefixes with no upper bound included.
* `Keys.lengthPrefixed_append_inj` and its consequences: a name of at most 255 bytes carries
  its length in front, so namespace and bucket prefixes are prefix-free
  (`Keys.namespacePrefix_prefix_iff`, `Keys.bucketPrefix_append_inj`), and inside a namespace
  an entry key tells its bucket and caller's key (`Bucket.entryKey_inj`), never equals a counter
  key (`Bucket.entryKey_ne_counter`) or the bucket list.
* `Keys.sequence_inj`, `Keys.readSequence_sequence`: generated keys are eight bytes that read
  back as their number.
-/

namespace ArchiveStore

namespace Keys

/-! ## Prefix scans -/

/-- No byte lies above `FF`. -/
theorem not_ff_lt (c : UInt8) : ¬ (0xFF : UInt8) < c := by
  have hc := c.toNat_lt
  simp only [UInt8.lt_iff_toNat_lt]
  have : (0xFF : UInt8).toNat = 255 := rfl
  omega

/-- A byte that is not below `FF` is `FF`. -/
theorem eq_ff_of_not_lt {b : UInt8} (hb : ¬ b < 0xFF) : b = 0xFF := by
  have := b.toNat_lt
  simp only [UInt8.lt_iff_toNat_lt] at hb
  rw [← UInt8.toNat_inj]
  have : (0xFF : UInt8).toNat = 255 := rfl
  omega

/-- A byte below `FF` and the byte after it: the keys from `q ++ [b]` up to `q ++ [b + 1]`
are exactly the extensions of `q ++ [b]`. -/
theorem within_raise {b : UInt8} (hb : b < 0xFF) (q k : Bytes) :
    (q ++ [b] ≤ k ∧ k < q ++ [b + 1]) ↔ q ++ [b] <+: k := by
  have hb' : b.toNat < 255 := by simpa [UInt8.lt_iff_toNat_lt] using hb
  induction q generalizing k with
  | nil =>
    cases k with
    | nil => simp
    | cons c k =>
      simp only [List.nil_append, List.cons_le_cons_iff, List.cons_lt_cons_iff,
        List.cons_prefix_cons, List.nil_le, List.not_lt_nil, and_true, and_false, or_false,
        List.nil_prefix]
      simp only [UInt8.lt_iff_toNat_lt, UInt8.toNat_add, UInt8.toNat_one, ← UInt8.toNat_inj]
      omega
  | cons a q ih =>
    cases k with
    | nil => simp
    | cons c k =>
      simp only [List.cons_append, List.cons_le_cons_iff, List.cons_lt_cons_iff,
        List.cons_prefix_cons, ← ih]
      -- the first bytes must agree: one above the other puts `k` outside the range
      by_cases hac : a = c
      · subst hac
        simp [UInt8.lt_irrefl]
      · have hne : ¬ (a < c ∧ c < a) := fun h => UInt8.lt_asymm h.1 h.2
        constructor
        · rintro ⟨h1 | ⟨h1, _⟩, h2 | ⟨h2, _⟩⟩
          · exact absurd ⟨h1, h2⟩ hne
          · exact absurd h2.symm hac
          · exact absurd h1 hac
          · exact absurd h1 hac
        · rintro ⟨h, _⟩
          exact absurd h hac

/-- Bytes in front of both sides do not change their order. -/
theorem append_le_append_iff (q x y : Bytes) : q ++ x ≤ q ++ y ↔ x ≤ y := by
  induction q with
  | nil => rfl
  | cons a q ih => simp [List.cons_le_cons_iff, UInt8.lt_irrefl, ih]

/-- A key at least `[FF]` starts with `FF`. -/
theorem ff_prefix_of_le {k : Bytes} (h : [0xFF] ≤ k) : [0xFF] <+: k := by
  cases k with
  | nil => simp at h
  | cons c k =>
    simp only [List.cons_le_cons_iff, List.nil_le, and_true, List.cons_prefix_cons,
      List.nil_prefix] at h ⊢
    rcases h with h | h
    · exact absurd h (not_ff_lt c)
    · exact h

/-- The bounds computed from a reversed prefix hold exactly the keys that extend the prefix. -/
theorem withinBounds_successorRev (r k : Bytes) :
    withinBounds r.reverse ((successorRev r).map List.reverse) k = true ↔ r.reverse <+: k := by
  induction r generalizing k with
  | nil => simp [withinBounds, successorRev]
  | cons b r ih =>
    by_cases hb : b < 0xFF
    · -- the last byte can be raised: the bounds are `q ++ [b]` and `q ++ [b + 1]`
      simp only [successorRev, if_pos hb, Option.map_some, List.reverse_cons, withinBounds,
        Bool.and_eq_true, decide_eq_true_eq]
      exact within_raise hb _ _
    · -- a last byte `FF` is dropped: the bounds are those of the rest, raised at the bottom
      have hff : b = 0xFF := eq_ff_of_not_lt hb
      subst hff
      have ih' := ih k
      simp only [successorRev, if_neg hb, List.reverse_cons, withinBounds, Bool.and_eq_true,
        decide_eq_true_eq] at ih' ⊢
      constructor
      · rintro ⟨hle, hhi⟩
        have hq : r.reverse ≤ k := List.le_trans (List.prefix_append _ _).le hle
        obtain ⟨rest, rfl⟩ := ih'.1 ⟨hq, hhi⟩
        rw [append_le_append_iff] at hle
        exact (List.prefix_append_right_inj _).2 (ff_prefix_of_le hle)
      · intro hpre
        exact ⟨hpre.le, (ih'.2 ((List.prefix_append _ _).trans hpre)).2⟩

/-- A prefix scan visits exactly the keys that start with the prefix. -/
theorem withinPrefix_iff (p k : Bytes) : withinPrefix p k = true ↔ p <+: k := by
  have h := withinBounds_successorRev p.reverse k
  rw [List.reverse_reverse] at h
  exact h

/-! ## Names carry their length -/

/-- A name keys can be built from: one to 255 bytes, so that its length fits the byte in front
of it. -/
def ValidName (name : Bytes) : Prop := 0 < name.length ∧ name.length ≤ maxNameLength

/-- The name check passes exactly the names keys can be built from. -/
theorem validateName_eq_ok {what : String} {name : Bytes} :
    validateName what name = .ok () ↔ ValidName name := by
  unfold validateName ValidName maxNameLength
  by_cases h0 : name.isEmpty
  · have : name.length = 0 := by simpa using h0
    simp [h0, this]
  · have : 0 < name.length := by
      rw [List.isEmpty_iff, ← List.length_eq_zero_iff] at h0
      omega
    by_cases hlong : name.length > 255
    · simp [h0, hlong]
    · simp [h0, hlong, this]
      omega

/-- Two names short enough for their length byte, each followed by more bytes, are told
apart by the length byte: equal keys have equal names and equal rests. -/
theorem lengthPrefixed_append_inj {a b x y : Bytes} (ha : a.length ≤ maxNameLength)
    (hb : b.length ≤ maxNameLength) :
    lengthPrefixed a ++ x = lengthPrefixed b ++ y ↔ a = b ∧ x = y := by
  constructor
  · intro h
    simp only [lengthPrefixed, List.cons_append, List.cons.injEq] at h
    obtain ⟨hlen, h⟩ := h
    have hlen' : a.length = b.length := by
      have := congrArg UInt8.toNat hlen
      simp only [UInt8.toNat_ofNat', maxNameLength] at this ha hb
      omega
    exact List.append_inj h hlen'
  · rintro ⟨rfl, rfl⟩
    rfl

/-- Prefixes of namespaces with names of at most 255 bytes tell the namespaces apart. -/
theorem namespacePrefix_append_inj {a b x y : Bytes} (ha : a.length ≤ maxNameLength)
    (hb : b.length ≤ maxNameLength) :
    namespacePrefix a ++ x = namespacePrefix b ++ y ↔ a = b ∧ x = y := by
  simp only [namespacePrefix, List.cons_append, List.cons.injEq, true_and]
  exact lengthPrefixed_append_inj ha hb

/-- The kind of a bucket is read off its tag. -/
theorem BucketKind.tag_inj {k₁ k₂ : BucketKind} : k₁.tag = k₂.tag ↔ k₁ = k₂ := by
  cases k₁ <;> cases k₂ <;> decide

/-- Inside one namespace, a bucket's prefix tells its kind and name, for names of at most 255
bytes. -/
theorem bucketPrefix_append_inj {sp n₁ n₂ x y : Bytes} {k₁ k₂ : BucketKind}
    (h₁ : n₁.length ≤ maxNameLength) (h₂ : n₂.length ≤ maxNameLength) :
    bucketPrefix sp k₁ n₁ ++ x = bucketPrefix sp k₂ n₂ ++ y ↔ k₁ = k₂ ∧ n₁ = n₂ ∧ x = y := by
  simp only [bucketPrefix, List.append_assoc, List.append_cancel_left_eq, List.cons_append,
    List.cons.injEq, BucketKind.tag_inj]
  rw [lengthPrefixed_append_inj h₁ h₂]

/-- A length-prefixed name starts a key that starts with another only if the names agree. -/
theorem lengthPrefixed_prefix_iff {a b x : Bytes} (ha : a.length ≤ maxNameLength)
    (hb : b.length ≤ maxNameLength) : lengthPrefixed a <+: lengthPrefixed b ++ x ↔ a = b := by
  constructor
  · rintro ⟨z, hz⟩
    exact ((lengthPrefixed_append_inj ha hb).1 hz).1
  · rintro rfl
    exact List.prefix_append _ _

/-- No key lies in two namespaces whose names have at most 255 bytes. -/
theorem namespacePrefix_prefix_iff {a b x : Bytes} (ha : a.length ≤ maxNameLength)
    (hb : b.length ≤ maxNameLength) : namespacePrefix a <+: namespacePrefix b ++ x ↔ a = b := by
  simp only [namespacePrefix, List.cons_append, List.cons_prefix_cons, true_and]
  exact lengthPrefixed_prefix_iff ha hb

/-! ## Sequence numbers -/

/-- A sequence number takes eight bytes. -/
@[simp] theorem length_sequence (n : UInt64) : (sequence n).length = 8 := by
  simp [sequence]

/-- A sequence number reads back as itself. -/
theorem readSequence_sequence (n : UInt64) : readSequence (sequence n) = .ok n := by
  have hn := n.toNat_lt_size
  simp only [readSequence, sequence, Bytes.length_ofNatBE, if_true, Bytes.toNatBE_ofNatBE]
  rw [Nat.mod_eq_of_lt (by simpa using hn), UInt64.ofNat_toNat]

/-- Different sequence numbers have different keys. -/
theorem sequence_inj {m n : UInt64} : sequence m = sequence n ↔ m = n := by
  constructor
  · intro h
    have := congrArg readSequence h
    rw [readSequence_sequence, readSequence_sequence] at this
    exact Except.ok.inj this
  · rintro rfl
    rfl

/-- The list of namespace names lies in no namespace. -/
theorem not_namespacePrefix_prefix_namespaceList (n : Bytes) :
    ¬ namespacePrefix n <+: namespaceList := by
  simp [namespacePrefix, namespaceList, List.cons_prefix_cons]

end Keys

namespace Bucket

variable {b b₁ b₂ : Bucket} {k k₁ k₂ : Bytes}

/-- An entry's key: the bucket's prefix, the byte 0, the caller's key. -/
theorem entryKey_eq (b : Bucket) (k : Bytes) :
    b.entryKey k = Keys.bucketPrefix b.space b.kind b.name ++ 0x00 :: k := by
  simp [entryKey, entries, keyPrefix, Keys.entryKey, Keys.entryPrefix]

/-- A counter's key: the bucket's prefix, the byte 1, `id`. -/
theorem counter_eq (b : Bucket) :
    b.counter = Keys.bucketPrefix b.space b.kind b.name ++ 0x01 :: Bytes.ofString "id" := rfl

/-- An entry key tells the caller's key, in one bucket. -/
theorem entryKey_right_inj (b : Bucket) {x y : Bytes} : b.entryKey x = b.entryKey y ↔ x = y := by
  simp [entryKey, Keys.entryKey]

/-- No entry key of a bucket is its own counter key. -/
theorem entryKey_ne_own_counter (b : Bucket) (k : Bytes) : b.entryKey k ≠ b.counter := by
  rw [entryKey_eq, counter_eq]
  simp

/-- The list of a namespace's bucket names: the namespace's prefix, the byte 2, `buckets`. -/
theorem bucketPrefix_ne_bucketList {sp n x : Bytes} {kind : BucketKind} :
    Keys.bucketPrefix sp kind n ++ x ≠ Keys.bucketList sp := by
  cases kind <;> simp [Keys.bucketPrefix, Keys.bucketList, BucketKind.tag]

section SameSpace

variable (hs : b₁.space = b₂.space) (h₁ : b₁.name.length ≤ Keys.maxNameLength)
  (h₂ : b₂.name.length ≤ Keys.maxNameLength)
include hs h₁ h₂

/-- Inside one namespace, an entry key tells its bucket and its caller's key. -/
theorem entryKey_inj :
    b₁.entryKey k₁ = b₂.entryKey k₂ ↔ b₁.kind = b₂.kind ∧ b₁.name = b₂.name ∧ k₁ = k₂ := by
  rw [entryKey_eq, entryKey_eq, hs, Keys.bucketPrefix_append_inj h₁ h₂, List.cons.injEq]
  simp

/-- Inside one namespace, no entry key is a counter key. -/
theorem entryKey_ne_counter : b₁.entryKey k ≠ b₂.counter := by
  rw [entryKey_eq, counter_eq, hs, Ne, Keys.bucketPrefix_append_inj h₁ h₂, List.cons.injEq]
  simp

/-- Inside one namespace, a counter key tells its bucket. -/
theorem counter_inj : b₁.counter = b₂.counter ↔ b₁.kind = b₂.kind ∧ b₁.name = b₂.name := by
  rw [counter_eq, counter_eq, hs, Keys.bucketPrefix_append_inj h₁ h₂]
  simp

/-- Inside one namespace, a bucket's keys start with its own prefix only. -/
theorem keyPrefix_prefix_iff {x : Bytes} :
    b₁.keyPrefix <+: Keys.bucketPrefix b₂.space b₂.kind b₂.name ++ x ↔
      b₁.kind = b₂.kind ∧ b₁.name = b₂.name := by
  constructor
  · rintro ⟨z, hz⟩
    rw [keyPrefix, hs, Keys.bucketPrefix_append_inj h₁ h₂] at hz
    exact ⟨hz.1, hz.2.1⟩
  · rintro ⟨hk, hn⟩
    rw [keyPrefix, hs, hk, hn]
    exact List.prefix_append _ _

end SameSpace

/-- A bucket's entries are the keys that start with its entry prefix. -/
theorem entries_prefix_iff {κ : Bytes} : b.entries <+: κ ↔ ∃ k, κ = b.entryKey k := by
  constructor
  · rintro ⟨k, rfl⟩
    exact ⟨k, rfl⟩
  · rintro ⟨k, rfl⟩
    exact List.prefix_append _ _

/-- Every key of a bucket lies in its namespace. -/
theorem space_prefix_keyPrefix (b : Bucket) {x : Bytes} :
    b.space <+: Keys.bucketPrefix b.space b.kind b.name ++ x := by
  rw [Keys.bucketPrefix, List.append_assoc]
  exact List.prefix_append _ _

end Bucket

end ArchiveStore
