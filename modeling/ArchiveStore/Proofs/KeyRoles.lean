import ArchiveStore.Proofs.Table
/-!
# Every key has one role

The layout builds four kinds of keys: the list of namespace names, a namespace's list of
bucket names, an entry of a bucket under a caller's key, and a bucket's sequence counter.
`LayoutKey` names a key by its role and the names it is built from, `LayoutKey.bytes` is the
table key. Prefix scans and prefix removals address three kinds of parts (`LayoutPart`): a
namespace, a bucket, and the entries of a bucket.

For names of one to 255 bytes, whatever bytes the names and the caller's keys hold:

* `LayoutKey.bytes_inj`: the table key tells the role, every name and the caller's key;
* `LayoutPart.prefix_iff`: a key starts with the prefix of a part exactly when it belongs to
  the part (`LayoutKey.In`), so a scan or a removal of a part's prefix reaches exactly the
  part's keys (`LayoutPart.mem_scan_iff`, `LayoutPart.get?_erasePrefix`);
* `key_roles_never_collide` gathers these facts with the prefix-freeness of namespace and
  bucket prefixes.
-/

namespace ArchiveStore

namespace Keys

/-- Two length-prefixed names, each followed by more bytes: one key starts with the other only
after the same name. -/
theorem lengthPrefixed_append_prefix_iff {a b x y : Bytes} (ha : a.length ≤ maxNameLength)
    (hb : b.length ≤ maxNameLength) :
    lengthPrefixed a ++ x <+: lengthPrefixed b ++ y ↔ a = b ∧ x <+: y := by
  constructor
  · rintro ⟨z, hz⟩
    rw [List.append_assoc, lengthPrefixed_append_inj ha hb] at hz
    exact ⟨hz.1, z, hz.2⟩
  · rintro ⟨rfl, hxy⟩
    exact (List.prefix_append_right_inj _).2 hxy

/-- No bucket's tag is the byte of the bucket list. -/
theorem tag_ne_bucketList (kind : BucketKind) : kind.tag ≠ 0x02 := by
  cases kind <;> decide

end Keys

/-- A key of the layout, by its role, with the names and the caller's key it is built from. -/
inductive LayoutKey where
  /-- The list of namespace names. -/
  | namespaceList
  /-- A namespace's list of user bucket names. -/
  | bucketList (space : Bytes)
  /-- An entry of a bucket under a caller's key. -/
  | entry (space : Bytes) (kind : BucketKind) (bucket key : Bytes)
  /-- A bucket's sequence counter. -/
  | counter (space : Bytes) (kind : BucketKind) (bucket : Bytes)
deriving DecidableEq, Repr

/-- A part of the layout that a prefix scan or a prefix removal addresses. -/
inductive LayoutPart where
  /-- Every key of a namespace. -/
  | space (space : Bytes)
  /-- Every key of a bucket: its entries and its counter. -/
  | bucket (space : Bytes) (kind : BucketKind) (bucket : Bytes)
  /-- The entries of a bucket. -/
  | entries (space : Bytes) (kind : BucketKind) (bucket : Bytes)
deriving DecidableEq, Repr

namespace LayoutKey

/-- The table key. -/
def bytes : LayoutKey → Bytes
  | namespaceList => Keys.namespaceList
  | bucketList n => Keys.bucketList (Keys.namespacePrefix n)
  | entry n kind b k =>
    Keys.entryKey (Keys.entryPrefix (Keys.bucketPrefix (Keys.namespacePrefix n) kind b)) k
  | counter n kind b => Keys.sequenceKey (Keys.bucketPrefix (Keys.namespacePrefix n) kind b)

/-- Every name in the key passes the name check. -/
def Named : LayoutKey → Prop
  | namespaceList => True
  | bucketList n => Keys.ValidName n
  | entry n _ b _ | counter n _ b => Keys.ValidName n ∧ Keys.ValidName b

/-- Whether a key belongs to a part of the layout. -/
def In : LayoutKey → LayoutPart → Bool
  | bucketList n', .space n | entry n' _ _ _, .space n | counter n' _ _, .space n => n == n'
  | entry n' kind' b' _, .bucket n kind b | counter n' kind' b', .bucket n kind b
  | entry n' kind' b' _, .entries n kind b => n == n' && kind == kind' && b == b'
  | _, _ => false

/-- The keys of a bucket's entries are its entry keys. -/
theorem in_entries_iff {K : LayoutKey} {n b : Bytes} {kind : BucketKind} :
    K.In (.entries n kind b) = true ↔ ∃ k, K = entry n kind b k := by
  cases K with
  | entry n' kind' b' k =>
    simp only [In, Bool.and_eq_true, beq_iff_eq, entry.injEq]
    constructor
    · rintro ⟨⟨rfl, rfl⟩, rfl⟩
      exact ⟨k, rfl, rfl, rfl, rfl⟩
    · rintro ⟨_, rfl, rfl, rfl, -⟩
      exact ⟨⟨rfl, rfl⟩, rfl⟩
  | namespaceList | bucketList _ | counter _ _ _ => simp [In]

/-- The table key of each role, with the namespace and bucket prefixes spelled out. -/
theorem bytes_namespaceList : namespaceList.bytes = 0x01 :: Bytes.ofString "namespaces" := rfl

theorem bytes_bucketList (n : Bytes) :
    (bucketList n).bytes = 0x00 :: (Keys.lengthPrefixed n ++ 0x02 :: Bytes.ofString "buckets") :=
  rfl

theorem bytes_entry (n b k : Bytes) (kind : BucketKind) :
    (entry n kind b k).bytes =
      0x00 :: (Keys.lengthPrefixed n ++ kind.tag :: (Keys.lengthPrefixed b ++ 0x00 :: k)) := by
  simp [bytes, Keys.entryKey, Keys.entryPrefix, Keys.bucketPrefix, Keys.namespacePrefix]

theorem bytes_counter (n b : Bytes) (kind : BucketKind) :
    (counter n kind b).bytes =
      0x00 :: (Keys.lengthPrefixed n ++ kind.tag ::
        (Keys.lengthPrefixed b ++ 0x01 :: Bytes.ofString "id")) := by
  simp [bytes, Keys.sequenceKey, Keys.bucketPrefix, Keys.namespacePrefix]

end LayoutKey

namespace LayoutPart

/-- The prefix a scan or a removal of the part uses. -/
def keyPrefix : LayoutPart → Bytes
  | space n => Keys.namespacePrefix n
  | bucket n kind b => Keys.bucketPrefix (Keys.namespacePrefix n) kind b
  | entries n kind b => Keys.entryPrefix (Keys.bucketPrefix (Keys.namespacePrefix n) kind b)

/-- Every name of the part passes the name check. -/
def Named : LayoutPart → Prop
  | space n => Keys.ValidName n
  | bucket n _ b | entries n _ b => Keys.ValidName n ∧ Keys.ValidName b

theorem keyPrefix_space (n : Bytes) : (space n).keyPrefix = 0x00 :: Keys.lengthPrefixed n := rfl

theorem keyPrefix_bucket (n b : Bytes) (kind : BucketKind) :
    (bucket n kind b).keyPrefix =
      0x00 :: (Keys.lengthPrefixed n ++ kind.tag :: Keys.lengthPrefixed b) := by
  simp [keyPrefix, Keys.bucketPrefix, Keys.namespacePrefix]

theorem keyPrefix_entries (n b : Bytes) (kind : BucketKind) :
    (entries n kind b).keyPrefix =
      0x00 :: (Keys.lengthPrefixed n ++ kind.tag :: (Keys.lengthPrefixed b ++ [0x00])) := by
  simp [keyPrefix, Keys.entryPrefix, Keys.bucketPrefix, Keys.namespacePrefix]

/-- A key starts with the prefix of a part exactly when it belongs to the part. The names
carry their length in front, so a shorter name never matches the start of a longer one, and
the bytes after a namespace (a kind tag, or `02` for the bucket list) and after a bucket (`00`
for an entry, `01` for the counter) tell the roles apart. -/
theorem prefix_iff {p : LayoutPart} {K : LayoutKey} (hp : p.Named) (hK : K.Named) :
    p.keyPrefix <+: K.bytes ↔ K.In p = true := by
  open LayoutKey in
  cases p with
  | space n =>
    have hn := hp.2
    cases K with
    | namespaceList => simp [keyPrefix_space, bytes_namespaceList, In]
    | bucketList n' =>
      simp [keyPrefix_space, bytes_bucketList, In, Keys.lengthPrefixed_prefix_iff hn hK.2]
    | entry n' kind' b' k =>
      simp [keyPrefix_space, bytes_entry, In, Keys.lengthPrefixed_prefix_iff hn hK.1.2]
    | counter n' kind' b' =>
      simp [keyPrefix_space, bytes_counter, In, Keys.lengthPrefixed_prefix_iff hn hK.1.2]
  | bucket n kind b =>
    obtain ⟨⟨-, hn⟩, -, hb⟩ := hp
    cases K with
    | namespaceList => simp [keyPrefix_bucket, bytes_namespaceList, In]
    | bucketList n' =>
      -- a bucket's tag is never the byte of the bucket list
      simp [keyPrefix_bucket, bytes_bucketList, In, Keys.lengthPrefixed_append_prefix_iff hn hK.2,
        Keys.tag_ne_bucketList]
    | entry n' kind' b' k =>
      simp [keyPrefix_bucket, bytes_entry, In, Keys.lengthPrefixed_append_prefix_iff hn hK.1.2,
        Keys.lengthPrefixed_prefix_iff hb hK.2.2, Keys.BucketKind.tag_inj, and_assoc]
    | counter n' kind' b' =>
      simp [keyPrefix_bucket, bytes_counter, In, Keys.lengthPrefixed_append_prefix_iff hn hK.1.2,
        Keys.lengthPrefixed_prefix_iff hb hK.2.2, Keys.BucketKind.tag_inj, and_assoc]
  | entries n kind b =>
    obtain ⟨⟨-, hn⟩, -, hb⟩ := hp
    cases K with
    | namespaceList => simp [keyPrefix_entries, bytes_namespaceList, In]
    | bucketList n' =>
      simp [keyPrefix_entries, bytes_bucketList, In, Keys.lengthPrefixed_append_prefix_iff hn hK.2,
        Keys.tag_ne_bucketList]
    | entry n' kind' b' k =>
      simp [keyPrefix_entries, bytes_entry, In, Keys.lengthPrefixed_append_prefix_iff hn hK.1.2,
        Keys.lengthPrefixed_append_prefix_iff hb hK.2.2, Keys.BucketKind.tag_inj, and_assoc]
    | counter n' kind' b' =>
      -- the entries' byte `00` is not the counter's `01`
      simp [keyPrefix_entries, bytes_counter, In, Keys.lengthPrefixed_append_prefix_iff hn hK.1.2,
        Keys.lengthPrefixed_append_prefix_iff hb hK.2.2]

/-- No namespace's prefix starts the prefix of another. -/
theorem space_prefix_iff {n₁ n₂ : Bytes} (h₁ : Keys.ValidName n₁)
    (h₂ : Keys.ValidName n₂) :
    (space n₁).keyPrefix <+: (space n₂).keyPrefix ↔ n₁ = n₂ := by
  rw [keyPrefix_space, keyPrefix_space, List.cons_prefix_cons,
    ← List.append_nil (Keys.lengthPrefixed n₂), Keys.lengthPrefixed_prefix_iff h₁.2 h₂.2]
  exact and_iff_right rfl

/-- No bucket's prefix, under the prefix of a namespace, starts the prefix of another. -/
theorem bucket_prefix_iff {n₁ n₂ b₁ b₂ : Bytes} {kind₁ kind₂ : BucketKind}
    (h₁ : (bucket n₁ kind₁ b₁).Named) (h₂ : (bucket n₂ kind₂ b₂).Named) :
    (bucket n₁ kind₁ b₁).keyPrefix <+: (bucket n₂ kind₂ b₂).keyPrefix ↔
      n₁ = n₂ ∧ kind₁ = kind₂ ∧ b₁ = b₂ := by
  rw [keyPrefix_bucket, keyPrefix_bucket, List.cons_prefix_cons,
    Keys.lengthPrefixed_append_prefix_iff h₁.1.2 h₂.1.2, List.cons_prefix_cons,
    ← List.append_nil (Keys.lengthPrefixed b₂),
    Keys.lengthPrefixed_prefix_iff h₁.2.2 h₂.2.2, Keys.BucketKind.tag_inj]
  exact and_iff_right rfl

/-- Removing a part's prefix removes exactly the part's keys. -/
theorem get?_erasePrefix {p : LayoutPart} {K : LayoutKey} (hp : p.Named) (hK : K.Named)
    (t : Table) :
    (t.erasePrefix p.keyPrefix).get? K.bytes = if K.In p then none else t.get? K.bytes := by
  rw [Table.get?_erasePrefix]
  simp only [prefix_iff hp hK]

/-- A scan of a part's prefix lists exactly the part's keys that hold a record. -/
theorem mem_scan_iff {p : LayoutPart} {K : LayoutKey} (hp : p.Named) (hK : K.Named)
    (t : Table) (v : Bytes) :
    (K.bytes, v) ∈ t.scan p.keyPrefix ↔ K.In p = true ∧ t.get? K.bytes = some v := by
  rw [Table.mem_scan, prefix_iff hp hK]

end LayoutPart

namespace LayoutKey

/-- The table key tells the role, every name and the caller's key. -/
theorem bytes_inj {K K' : LayoutKey} (hK : K.Named) (hK' : K'.Named) :
    K.bytes = K'.bytes ↔ K = K' := by
  refine ⟨fun h => ?_, fun h => h ▸ rfl⟩
  cases K with
  | namespaceList =>
    cases K' <;> simp_all [bytes_namespaceList, bytes_bucketList, bytes_entry, bytes_counter]
  | bucketList n =>
    cases K' with
    | bucketList n' =>
      rw [bytes_bucketList, bytes_bucketList, List.cons.injEq,
        Keys.lengthPrefixed_append_inj hK.2 hK'.2] at h
      rw [h.2.1]
    | entry n' kind' b' k' =>
      rw [bytes_bucketList, bytes_entry, List.cons.injEq,
        Keys.lengthPrefixed_append_inj hK.2 hK'.1.2] at h
      exact absurd (List.cons.inj h.2.2).1.symm (Keys.tag_ne_bucketList kind')
    | counter n' kind' b' =>
      rw [bytes_bucketList, bytes_counter, List.cons.injEq,
        Keys.lengthPrefixed_append_inj hK.2 hK'.1.2] at h
      exact absurd (List.cons.inj h.2.2).1.symm (Keys.tag_ne_bucketList kind')
    | namespaceList => simp [bytes_namespaceList, bytes_bucketList] at h
  | entry n kind b k =>
    cases K' with
    | entry n' kind' b' k' =>
      rw [bytes_entry, bytes_entry, List.cons.injEq,
        Keys.lengthPrefixed_append_inj hK.1.2 hK'.1.2, List.cons.injEq,
        Keys.lengthPrefixed_append_inj hK.2.2 hK'.2.2, List.cons.injEq,
        Keys.BucketKind.tag_inj] at h
      obtain ⟨-, rfl, rfl, rfl, -, rfl⟩ := h
      rfl
    | counter n' kind' b' =>
      rw [bytes_entry, bytes_counter, List.cons.injEq,
        Keys.lengthPrefixed_append_inj hK.1.2 hK'.1.2, List.cons.injEq,
        Keys.lengthPrefixed_append_inj hK.2.2 hK'.2.2] at h
      simp at h
    | bucketList n' =>
      rw [bytes_entry, bytes_bucketList, List.cons.injEq,
        Keys.lengthPrefixed_append_inj hK.1.2 hK'.2] at h
      exact absurd (List.cons.inj h.2.2).1 (Keys.tag_ne_bucketList kind)
    | namespaceList => simp [bytes_namespaceList, bytes_entry] at h
  | counter n kind b =>
    cases K' with
    | counter n' kind' b' =>
      rw [bytes_counter, bytes_counter, List.cons.injEq,
        Keys.lengthPrefixed_append_inj hK.1.2 hK'.1.2, List.cons.injEq,
        Keys.lengthPrefixed_append_inj hK.2.2 hK'.2.2, Keys.BucketKind.tag_inj] at h
      obtain ⟨-, rfl, rfl, rfl, -⟩ := h
      rfl
    | entry n' kind' b' k' =>
      rw [bytes_counter, bytes_entry, List.cons.injEq,
        Keys.lengthPrefixed_append_inj hK.1.2 hK'.1.2, List.cons.injEq,
        Keys.lengthPrefixed_append_inj hK.2.2 hK'.2.2] at h
      simp at h
    | bucketList n' =>
      rw [bytes_counter, bytes_bucketList, List.cons.injEq,
        Keys.lengthPrefixed_append_inj hK.1.2 hK'.2] at h
      exact absurd (List.cons.inj h.2.2).1 (Keys.tag_ne_bucketList kind)
    | namespaceList => simp [bytes_namespaceList, bytes_counter] at h

end LayoutKey

/-- The key layout never collides across roles. For names of one to 255 bytes, whatever bytes
the names and the caller's keys hold:

* a namespace's prefix starts another's only if the names agree;
* a bucket's prefix, under a namespace's prefix, starts another's only if the namespaces, the
  kinds and the names agree;
* a key of the layout starts with a bucket's entry prefix exactly when it is an entry of that
  bucket: never an entry of another bucket, a counter, a bucket list or the namespace list;
* in one bucket the entry key tells the caller's key, and every key tells its role and the
  names in it;
* so removing or scanning the prefix of a namespace, a bucket or a bucket's entries reaches
  exactly the keys of that part. -/
theorem key_roles_never_collide (n₁ n₂ b₁ b₂ k₁ k₂ : Bytes) (kind₁ kind₂ : BucketKind)
    (hn₁ : Keys.ValidName n₁) (hn₂ : Keys.ValidName n₂) (hb₁ : Keys.ValidName b₁)
    (hb₂ : Keys.ValidName b₂) :
    (Keys.namespacePrefix n₁ <+: Keys.namespacePrefix n₂ ↔ n₁ = n₂) ∧
    (Keys.bucketPrefix (Keys.namespacePrefix n₁) kind₁ b₁ <+:
        Keys.bucketPrefix (Keys.namespacePrefix n₂) kind₂ b₂ ↔
      n₁ = n₂ ∧ kind₁ = kind₂ ∧ b₁ = b₂) ∧
    (∀ K : LayoutKey, K.Named →
      (Keys.entryPrefix (Keys.bucketPrefix (Keys.namespacePrefix n₁) kind₁ b₁) <+: K.bytes ↔
        ∃ k, K = .entry n₁ kind₁ b₁ k)) ∧
    ((LayoutKey.entry n₁ kind₁ b₁ k₁).bytes = (LayoutKey.entry n₁ kind₁ b₁ k₂).bytes ↔
      k₁ = k₂) ∧
    (∀ K K' : LayoutKey, K.Named → K'.Named → (K.bytes = K'.bytes ↔ K = K')) ∧
    (∀ (p : LayoutPart) (K : LayoutKey) (t : Table) (v : Bytes), p.Named → K.Named →
      (t.erasePrefix p.keyPrefix).get? K.bytes = (if K.In p then none else t.get? K.bytes) ∧
      ((K.bytes, v) ∈ t.scan p.keyPrefix ↔ K.In p = true ∧ t.get? K.bytes = some v)) := by
  refine ⟨LayoutPart.space_prefix_iff hn₁ hn₂,
    LayoutPart.bucket_prefix_iff ⟨hn₁, hb₁⟩ ⟨hn₂, hb₂⟩,
    fun K hK => ?_, ?_, fun K K' hK hK' => LayoutKey.bytes_inj hK hK',
    fun p K t v hp hK =>
      ⟨LayoutPart.get?_erasePrefix hp hK t, LayoutPart.mem_scan_iff hp hK t v⟩⟩
  · have hp : (LayoutPart.entries n₁ kind₁ b₁).Named := ⟨hn₁, hb₁⟩
    rw [← LayoutKey.in_entries_iff]
    exact LayoutPart.prefix_iff hp hK
  · -- entries of one bucket differ exactly in the caller's key
    have h₁ : (LayoutKey.entry n₁ kind₁ b₁ k₁).Named := ⟨hn₁, hb₁⟩
    have h₂ : (LayoutKey.entry n₁ kind₁ b₁ k₂).Named := ⟨hn₁, hb₁⟩
    rw [LayoutKey.bytes_inj h₁ h₂, LayoutKey.entry.injEq]
    simp

/-- The namespace `a` does not reach into the namespace `ab`, and the builtin bucket `o` does
not reach into a user bucket of the same name. -/
theorem key_roles_named_alike_apart :
    Keys.ValidName (Bytes.ofString "a") ∧ Keys.ValidName (Bytes.ofString "ab") ∧
      Keys.ValidName (Bytes.ofString "o") ∧
      ¬ Keys.namespacePrefix (Bytes.ofString "a") <+: Keys.namespacePrefix (Bytes.ofString "ab") ∧
      ¬ Keys.entryPrefix (Keys.bucketPrefix (Keys.namespacePrefix (Bytes.ofString "a")) .builtin
        (Bytes.ofString "o")) <+:
        (LayoutKey.entry (Bytes.ofString "a") .user (Bytes.ofString "o")
          (Bytes.ofString "k")).bytes := by
  have ha : Keys.ValidName (Bytes.ofString "a") := ⟨by decide, by decide⟩
  have hab : Keys.ValidName (Bytes.ofString "ab") := ⟨by decide, by decide⟩
  have ho : Keys.ValidName (Bytes.ofString "o") := ⟨by decide, by decide⟩
  have h := key_roles_never_collide (Bytes.ofString "a") (Bytes.ofString "ab") (Bytes.ofString "o")
    (Bytes.ofString "o") (Bytes.ofString "k") (Bytes.ofString "k") .builtin .user ha hab ho ho
  refine ⟨ha, hab, ho, fun hp => ?_, fun hp => ?_⟩
  · exact absurd (h.1.1 hp) (by decide)
  · have hK : (LayoutKey.entry (Bytes.ofString "a") .user (Bytes.ofString "o")
        (Bytes.ofString "k")).Named := ⟨ha, ho⟩
    obtain ⟨k, hk⟩ := (h.2.2.1 _ hK).1 hp
    cases hk

end ArchiveStore
