import ArchiveStore.Proofs.Write
/-!
# Chunk ownership

A value stored with a meta whose chunk size is below its length lives in the chunk bucket `t`
of its namespace, one piece per chunk entry, and its entry keeps only the list of the chunk
keys. Nothing but those lists says which chunks are in use, so the chunk bucket stays exact
only if every write keeps the lists and the chunk entries in step.

`OwnedChunks sp t` says they are in step in the namespace of key prefix `sp`: every chunk an
entry of a document, object or user bucket lists exists; no chunk is listed twice, in one
entry or in two; every chunk entry is listed by an entry; and every listed chunk is a
sequence number below the chunk counter, so the next chunks the counter hands out are free.

This module states the invariant and proves what each kind of change does to it, on the level
of the lists, the chunk entries and the counter:

* `OwnedChunks.congr`: a table that agrees on the namespace's keys;
* `OwnedChunks.write`: one entry's list replaced by fresh chunks;
* `OwnedChunks.clear`: the lists of some entries dropped with their chunks;
* `OwnedChunks.of_empty`: a namespace with no keys.

`OwnedChunks.free_of_counter_le` is why the counter matters: the numbers it has not handed out
name no chunk entry, so the chunks a write appends are fresh.
-/

namespace ArchiveStore

namespace Bucket

variable {sp : Bytes} {b : Bucket}

/-- The buckets of a namespace whose entries may list chunks: its documents, its objects, and
its user buckets, whose names have at most 255 bytes. -/
def IsData (sp : Bytes) (b : Bucket) : Prop :=
  b = documents sp ∨ b = objects sp ∨ ∃ u, u.length ≤ Keys.maxNameLength ∧ b = user sp u

theorem IsData.space (h : b.IsData sp) : b.space = sp := by
  rcases h with rfl | rfl | ⟨u, -, rfl⟩ <;> rfl

theorem IsData.chunked (h : b.IsData sp) : b.chunked = true := by
  rcases h with rfl | rfl | ⟨u, -, rfl⟩ <;> rfl

theorem IsData.name_le (h : b.IsData sp) : b.name.length ≤ Keys.maxNameLength := by
  rcases h with rfl | rfl | ⟨u, hu, rfl⟩
  · show Keys.documentBucket.length ≤ Keys.maxNameLength
    decide
  · show Keys.objectBucket.length ≤ Keys.maxNameLength
    decide
  · exact hu

/-- A data bucket is not the chunk bucket. -/
theorem IsData.not_chunks (h : b.IsData sp) :
    ¬ (b.kind = (chunks sp).kind ∧ b.name = (chunks sp).name) := by
  rcases h with rfl | rfl | ⟨u, -, rfl⟩
  · show ¬ (BucketKind.builtin = .builtin ∧ Keys.documentBucket = Keys.chunkBucket)
    decide
  · show ¬ (BucketKind.builtin = .builtin ∧ Keys.objectBucket = Keys.chunkBucket)
    decide
  · simp [user, chunks]

/-- The chunk bucket's name has one byte. -/
theorem chunks_name_le (sp : Bytes) : (chunks sp).name.length ≤ Keys.maxNameLength := by
  show Keys.chunkBucket.length ≤ Keys.maxNameLength
  decide

/-- An entry of a data bucket is no chunk entry of its namespace. -/
theorem IsData.entryKey_ne_chunk (h : b.IsData sp) (k x : Bytes) :
    b.entryKey k ≠ (chunks sp).entryKey x := by
  rw [Ne, entryKey_inj h.space h.name_le (chunks_name_le sp)]
  exact fun ⟨hk, hn, _⟩ => h.not_chunks ⟨hk, hn⟩

/-- An entry of a data bucket is not the chunk counter of its namespace. -/
theorem IsData.entryKey_ne_chunkCounter (h : b.IsData sp) (k : Bytes) :
    b.entryKey k ≠ (chunks sp).counter :=
  entryKey_ne_counter h.space h.name_le (chunks_name_le sp)

/-- In one namespace, a data bucket's prefix starts only keys of that bucket. -/
theorem IsData.entries_prefix_of_keyPrefix {b' : Bucket} {k : Bytes} (hb : b.IsData sp)
    (hb' : b'.IsData sp) (h : b.keyPrefix <+: b'.entryKey k) : b.entries <+: b'.entryKey k := by
  rw [entryKey_eq] at h ⊢
  obtain ⟨hk, hn⟩ :=
    (keyPrefix_prefix_iff (hb.space.trans hb'.space.symm) hb.name_le hb'.name_le).1 h
  refine ⟨k, ?_⟩
  rw [entries, Keys.entryPrefix, keyPrefix, hb.space, ← hb'.space, hk, hn]
  simp

/-- A data bucket's prefix starts no chunk entry of its namespace. -/
theorem IsData.not_keyPrefix_chunk (hb : b.IsData sp) (x : Bytes) :
    ¬ b.keyPrefix <+: (chunks sp).entryKey x := by
  rw [entryKey_eq, keyPrefix_prefix_iff hb.space hb.name_le (chunks_name_le sp)]
  exact hb.not_chunks

/-- A data bucket's prefix does not start the chunk counter of its namespace. -/
theorem IsData.not_keyPrefix_chunkCounter (hb : b.IsData sp) :
    ¬ b.keyPrefix <+: (chunks sp).counter := by
  rw [counter_eq, keyPrefix_prefix_iff hb.space hb.name_le (chunks_name_le sp)]
  exact hb.not_chunks

/-- Every entry key lies in its bucket's namespace. -/
theorem space_prefix_entryKey (b : Bucket) (k : Bytes) : b.space <+: b.entryKey k := by
  rw [entryKey_eq]
  exact space_prefix_keyPrefix b

/-- Every counter key lies in its bucket's namespace. -/
theorem space_prefix_counter (b : Bucket) : b.space <+: b.counter := by
  rw [counter_eq]
  exact space_prefix_keyPrefix b

end Bucket

open Bucket

/-- The table key of an entry of a data bucket of the namespace of prefix `sp`. -/
def DataKey (sp κ : Bytes) : Prop := ∃ (b : Bucket) (k : Bytes), b.IsData sp ∧ κ = b.entryKey k

/-- A chunk key lies below the number the chunk counter of the namespace holds. -/
def BelowCounter (sp : Bytes) (t : Table) (c : Bytes) : Prop :=
  ∃ i v, c = Keys.sequence i ∧ t.counterAt (chunks sp).counter = .ok v ∧ i.toNat < v.toNat

namespace DataKey

variable {sp κ : Bytes}

theorem ne_chunk (h : DataKey sp κ) (x : Bytes) : κ ≠ (chunks sp).entryKey x := by
  obtain ⟨b, k, hb, rfl⟩ := h
  exact hb.entryKey_ne_chunk k x

theorem ne_chunkCounter (h : DataKey sp κ) : κ ≠ (chunks sp).counter := by
  obtain ⟨b, k, hb, rfl⟩ := h
  exact hb.entryKey_ne_chunkCounter k

theorem within_space (h : DataKey sp κ) : sp <+: κ := by
  obtain ⟨b, k, hb, rfl⟩ := h
  exact hb.space ▸ space_prefix_entryKey b k

end DataKey

/-- The chunks of the namespace of prefix `sp` are owned by the entries of its data buckets. -/
structure OwnedChunks (sp : Bytes) (t : Table) : Prop where
  /-- Every listed chunk exists. -/
  present : ∀ κ c, DataKey sp κ → c ∈ t.refsAt κ → t.contains ((chunks sp).entryKey c)
  /-- No entry lists a chunk twice. -/
  nodup : ∀ κ, DataKey sp κ → (t.refsAt κ).Nodup
  /-- No two entries list the same chunk. -/
  unique : ∀ κ₁ κ₂ c, DataKey sp κ₁ → DataKey sp κ₂ → c ∈ t.refsAt κ₁ → c ∈ t.refsAt κ₂ →
    κ₁ = κ₂
  /-- Every chunk entry is listed. -/
  owned : ∀ c, t.contains ((chunks sp).entryKey c) → ∃ κ, DataKey sp κ ∧ c ∈ t.refsAt κ
  /-- Every listed chunk is a number below the chunk counter. -/
  below : ∀ κ c, DataKey sp κ → c ∈ t.refsAt κ → BelowCounter sp t c

namespace OwnedChunks

variable {sp κ : Bytes} {t t' : Table}

/-- The invariant depends only on the lists of the data entries, the chunk entries and the
chunk counter. -/
theorem of_views (h : OwnedChunks sp t)
    (hrefs : ∀ κ, DataKey sp κ → t'.refsAt κ = t.refsAt κ)
    (hchunks : ∀ c, t'.contains ((chunks sp).entryKey c) = t.contains ((chunks sp).entryKey c))
    (hctr : t'.counterAt (chunks sp).counter = t.counterAt (chunks sp).counter) :
    OwnedChunks sp t' where
  present κ c hκ hc := by
    rw [hrefs κ hκ] at hc
    rw [hchunks]
    exact h.present κ c hκ hc
  nodup κ hκ := hrefs κ hκ ▸ h.nodup κ hκ
  unique κ₁ κ₂ c h₁ h₂ hc₁ hc₂ := by
    rw [hrefs κ₁ h₁] at hc₁
    rw [hrefs κ₂ h₂] at hc₂
    exact h.unique κ₁ κ₂ c h₁ h₂ hc₁ hc₂
  owned c hc := by
    rw [hchunks] at hc
    obtain ⟨κ, hκ, hcκ⟩ := h.owned c hc
    exact ⟨κ, hκ, (hrefs κ hκ).symm ▸ hcκ⟩
  below κ c hκ hc := by
    rw [hrefs κ hκ] at hc
    obtain ⟨i, v, hi, hv, hlt⟩ := h.below κ c hκ hc
    exact ⟨i, v, hi, hctr ▸ hv, hlt⟩

/-- A table that agrees on every key of the namespace owns its chunks the same way. -/
theorem congr (h : OwnedChunks sp t) (hsame : ∀ a, sp <+: a → t'.get? a = t.get? a) :
    OwnedChunks sp t' := by
  have hchunk : ∀ x : Bytes, sp <+: (chunks sp).entryKey x := fun x =>
    space_prefix_entryKey (chunks sp) x
  refine h.of_views (fun κ hκ => ?_) (fun c => ?_) ?_
  · simp only [Table.refsAt, hsame κ hκ.within_space]
  · simp only [Table.contains_eq, hsame _ (hchunk c)]
  · simp only [Table.counterAt, hsame _ (space_prefix_counter (chunks sp))]

/-- A namespace with no keys owns its chunks: there are none. -/
theorem of_empty (hnone : ∀ a, sp <+: a → t.get? a = none) : OwnedChunks sp t where
  present κ c hκ hc := by simp [Table.refsAt, hnone κ hκ.within_space] at hc
  nodup κ hκ := by simp [Table.refsAt, hnone κ hκ.within_space]
  unique κ₁ κ₂ c h₁ _ hc _ := by simp [Table.refsAt, hnone κ₁ h₁.within_space] at hc
  owned c hc := by
    simp [Table.contains_eq, hnone _ (space_prefix_entryKey (chunks sp) c)] at hc
  below κ c hκ hc := by simp [Table.refsAt, hnone κ hκ.within_space] at hc

/-- Replacing the list of one data entry by fresh chunks, which did not exist and which no
other entry lists: the chunks the entry listed before are gone, every other entry and chunk
stays, and every chunk below the counter before, or new, is below it after. -/
theorem write (h : OwnedChunks sp t) (hκ : DataKey sp κ) {F : List Bytes} (hF : F.Nodup)
    (hfresh : ∀ x ∈ F, t.contains ((chunks sp).entryKey x) = false)
    (hrefs : ∀ κ', DataKey sp κ' → t'.refsAt κ' = if κ' = κ then F else t.refsAt κ')
    (hchunks : ∀ x, t'.contains ((chunks sp).entryKey x) = true ↔
      (t.contains ((chunks sp).entryKey x) = true ∧ x ∉ t.refsAt κ) ∨ x ∈ F)
    (hbelow : ∀ x, BelowCounter sp t x ∨ x ∈ F → BelowCounter sp t' x) :
    OwnedChunks sp t' := by
  -- a fresh chunk is listed by no entry of the old table
  have hnew : ∀ κ' x, DataKey sp κ' → x ∈ F → x ∉ t.refsAt κ' := fun κ' x hκ' hx hmem => by
    have hc := h.present κ' x hκ' hmem
    rw [hfresh x hx] at hc
    cases hc
  constructor
  case present =>
    intro κ' c hκ' hc
    rw [hrefs κ' hκ'] at hc
    rw [hchunks]
    split at hc
    case isTrue => exact .inr hc
    case isFalse hne =>
      -- a chunk of another entry was not the replaced entry's
      exact .inl ⟨h.present κ' c hκ' hc, fun hcκ => hne (h.unique κ' κ c hκ' hκ hc hcκ)⟩
  case nodup =>
    intro κ' hκ'
    rw [hrefs κ' hκ']
    split
    · exact hF
    · exact h.nodup κ' hκ'
  case unique =>
    intro κ₁ κ₂ c h₁ h₂ hc₁ hc₂
    rw [hrefs κ₁ h₁] at hc₁
    rw [hrefs κ₂ h₂] at hc₂
    split at hc₁ <;> split at hc₂
    case isTrue.isTrue e₁ e₂ => exact e₁.trans e₂.symm
    case isTrue.isFalse => exact absurd hc₂ (hnew κ₂ c h₂ hc₁)
    case isFalse.isTrue => exact absurd hc₁ (hnew κ₁ c h₁ hc₂)
    case isFalse.isFalse => exact h.unique κ₁ κ₂ c h₁ h₂ hc₁ hc₂
  case owned =>
    intro c hc
    rcases (hchunks c).1 hc with ⟨hold, hnot⟩ | hin
    · obtain ⟨κ', hκ', hcκ'⟩ := h.owned c hold
      have hne : κ' ≠ κ := fun heq => hnot (heq ▸ hcκ')
      exact ⟨κ', hκ', by rw [hrefs κ' hκ', if_neg hne]; exact hcκ'⟩
    · exact ⟨κ, hκ, by rw [hrefs κ hκ, if_pos rfl]; exact hin⟩
  case below =>
    intro κ' c hκ' hc
    rw [hrefs κ' hκ'] at hc
    split at hc
    · exact hbelow c (.inr hc)
    · exact hbelow c (.inl (h.below κ' c hκ' hc))

/-- Dropping the lists of the data entries that satisfy `D`, with the chunks they list: every
other entry and chunk stays, and every chunk below the counter before is below it after. -/
theorem clear (h : OwnedChunks sp t) (D : Bytes → Prop)
    (hgone : ∀ κ', DataKey sp κ' → D κ' → t'.refsAt κ' = [])
    (hkept : ∀ κ', DataKey sp κ' → ¬ D κ' → t'.refsAt κ' = t.refsAt κ')
    (hchunks : ∀ x, t'.contains ((chunks sp).entryKey x) = true ↔
      t.contains ((chunks sp).entryKey x) = true ∧ ∀ κ', DataKey sp κ' → D κ' → x ∉ t.refsAt κ')
    (hbelow : ∀ x, BelowCounter sp t x → BelowCounter sp t' x) :
    OwnedChunks sp t' := by
  -- what an entry lists afterwards, it listed before, and it is not dropped
  have hlisted : ∀ κ' c, DataKey sp κ' → c ∈ t'.refsAt κ' → ¬ D κ' ∧ c ∈ t.refsAt κ' := by
    intro κ' c hκ' hc
    by_cases hD : D κ'
    · rw [hgone κ' hκ' hD] at hc
      cases hc
    · exact ⟨hD, hkept κ' hκ' hD ▸ hc⟩
  constructor
  case present =>
    intro κ' c hκ' hc
    obtain ⟨hD, hc⟩ := hlisted κ' c hκ' hc
    refine (hchunks c).2 ⟨h.present κ' c hκ' hc, fun κ'' hκ'' hD'' hc'' => ?_⟩
    exact hD (h.unique κ'' κ' c hκ'' hκ' hc'' hc ▸ hD'')
  case nodup =>
    intro κ' hκ'
    by_cases hD : D κ'
    · rw [hgone κ' hκ' hD]
      exact List.nodup_nil
    · rw [hkept κ' hκ' hD]
      exact h.nodup κ' hκ'
  case unique =>
    intro κ₁ κ₂ c h₁ h₂ hc₁ hc₂
    exact h.unique κ₁ κ₂ c h₁ h₂ (hlisted κ₁ c h₁ hc₁).2 (hlisted κ₂ c h₂ hc₂).2
  case owned =>
    intro c hc
    obtain ⟨hold, hfree⟩ := (hchunks c).1 hc
    obtain ⟨κ', hκ', hcκ'⟩ := h.owned c hold
    have hD : ¬ D κ' := fun hD => hfree κ' hκ' hD hcκ'
    exact ⟨κ', hκ', (hkept κ' hκ' hD).symm ▸ hcκ'⟩
  case below =>
    intro κ' c hκ' hc
    exact hbelow c (h.below κ' c hκ' (hlisted κ' c hκ' hc).2)

/-- No data entry lists a number the chunk counter has not handed out yet. -/
theorem unlisted_of_counter_le (h : OwnedChunks sp t) {c i : UInt64} (hκ : DataKey sp κ)
    (hc : t.counterAt (chunks sp).counter = .ok c) (hle : c.toNat ≤ i.toNat) :
    Keys.sequence i ∉ t.refsAt κ := by
  intro hmem
  obtain ⟨i', v, hi', hv, hlt⟩ := h.below κ _ hκ hmem
  rw [hc, Except.ok.injEq] at hv
  rw [Keys.sequence_inj] at hi'
  subst hv hi'
  omega

/-- The numbers the chunk counter has not handed out yet name no chunk entry: such an entry
would be listed, hence below the counter. -/
theorem free_of_counter_le (h : OwnedChunks sp t) {c i : UInt64}
    (hc : t.counterAt (chunks sp).counter = .ok c) (hle : c.toNat ≤ i.toNat) :
    t.contains ((chunks sp).entryKey (Keys.sequence i)) = false := by
  cases hcont : t.contains ((chunks sp).entryKey (Keys.sequence i)) with
  | false => rfl
  | true =>
    obtain ⟨κ, hκ, hmem⟩ := h.owned _ hcont
    exact absurd hmem (h.unlisted_of_counter_le hκ hc hle)

/-- The keys a run of `n` appends takes from the chunk counter on are listed by no data entry:
a write of fresh chunks never reuses a key the record it replaces lists. -/
theorem unlisted_chunkKeys (h : OwnedChunks sp t) {c : UInt64} {n : Nat} (hκ : DataKey sp κ)
    (hc : t.counterAt (chunks sp).counter = .ok c) (hfit : c.toNat + n ≤ Nat.pow 2 64) :
    ∀ x ∈ chunkKeys c n, x ∉ t.refsAt κ := by
  intro x hx
  obtain ⟨i, rfl, hlo, -⟩ := mem_chunkKeys hfit hx
  exact h.unlisted_of_counter_le hκ hc hlo

end OwnedChunks

end ArchiveStore
