import ArchiveStore.Proofs.Ownership.Invariant
import ArchiveStore.Database
/-!
# Chunk ownership under the writes of a bucket

Each write of a bucket keeps the chunks of every namespace owned by its entries
(`Table.ChunksOwned`). The work is done per namespace, on tables: `OwnedChunks.store` for a
store, which first appends a run of fresh chunks, then releases the old record's chunks and
writes a record that lists the run; `OwnedChunks.erase` for a delete; `OwnedChunks.clearBucket`
for clearing a bucket. `Table.ChunksOwned.update` carries a change inside one namespace to
every namespace, since names of at most 255 bytes keep namespaces' keys apart; the lemmas of
`Table.ChunksOwned` then say it for the transactions themselves.
-/

namespace ArchiveStore

open Bucket

namespace OwnedChunks

variable {sp κ : Bytes} {t t' : Table}

open Table

/-! ## The writes of a bucket -/

/-- Storing a record in a data entry, after appending a run of pieces from the chunk
counter's number on: the record lists exactly the run. -/
theorem store (h : OwnedChunks sp t) (hκ : DataKey sp κ) {c : UInt64} {ps : List Bytes}
    {record : Bytes}
    (hrun : ps = [] ∨
      t.counterAt (chunks sp).counter = .ok c ∧ c.toNat + ps.length < Nat.pow 2 64)
    (hrec : chunkRefs record = chunkKeys c ps.length) :
    OwnedChunks sp (((t.appendPlain (chunks sp) c ps).release (chunks sp) κ).insert κ record) := by
  -- the run is the numbers from the counter's on, none of which is listed yet
  have hrunKeys : ∀ x ∈ chunkKeys c ps.length, ∃ i : UInt64, x = Keys.sequence i ∧
      c.toNat ≤ i.toNat ∧ i.toNat < c.toNat + ps.length ∧
      t.counterAt (chunks sp).counter = .ok c := by
    intro x hx
    rcases hrun with rfl | ⟨hc, hfit⟩
    · cases hx
    · obtain ⟨i, rfl, hlo, hhi⟩ := mem_chunkKeys (by omega) hx
      exact ⟨i, rfl, hlo, hhi, hc⟩
  have hfresh : ∀ x ∈ chunkKeys c ps.length, t.contains ((chunks sp).entryKey x) = false := by
    intro x hx
    obtain ⟨i, rfl, hlo, -, hc⟩ := hrunKeys x hx
    exact h.free_of_counter_le hc hlo
  have hnodup : (chunkKeys c ps.length).Nodup := by
    rcases hrun with rfl | ⟨-, hfit⟩
    · exact List.nodup_nil
    · exact nodup_chunkKeys (by omega)
  -- the data entries and the counter are not chunk entries
  have happend : ∀ κ', DataKey sp κ' → (t.appendPlain (chunks sp) c ps).get? κ' = t.get? κ' :=
    fun κ' hκ' => get?_appendPlain_of_ne hκ'.ne_chunkCounter fun k _ => hκ'.ne_chunk k
  have hctr : (((t.appendPlain (chunks sp) c ps).release (chunks sp) κ).insert κ record).counterAt
      (chunks sp).counter = (t.appendPlain (chunks sp) c ps).counterAt (chunks sp).counter := by
    apply counterAt_congr
    rw [get?_insert, if_neg (Ne.symm hκ.ne_chunkCounter),
      get?_release_of_ne fun x => (entryKey_ne_own_counter _ x).symm]
  refine h.write hκ hnodup hfresh (fun κ' hκ' => ?_) (fun x => ?_) (fun x hx => ?_)
  · rw [refsAt_insert, hrec, refsAt_congr ((get?_release_of_ne hκ'.ne_chunk).trans
      (happend κ' hκ'))]
  · rw [contains_eq, get?_insert, if_neg (Ne.symm (hκ.ne_chunk x)), ← contains_eq,
      contains_release_entry, refsAt_congr (happend κ hκ), contains_appendPlain_iff]
    constructor
    · rintro ⟨hn, hc | hf⟩
      · exact .inl ⟨hc, hn⟩
      · exact .inr hf
    · rintro (⟨hc, hn⟩ | hf)
      · exact ⟨hn, .inl hc⟩
      · -- a fresh chunk is listed by no entry
        refine ⟨fun hmem => ?_, .inr hf⟩
        have := h.present κ x hκ hmem
        rw [hfresh x hf] at this
        cases this
  · -- the counter moved past the run, or stayed where it was
    rcases hrun with rfl | ⟨hc, hfit⟩
    · rcases hx with ⟨i, v, rfl, hv, hlt⟩ | hx
      · exact ⟨i, v, rfl, hctr.trans hv, hlt⟩
      · cases hx
    · cases ps with
      | nil =>
        rcases hx with ⟨i, v, rfl, hv, hlt⟩ | hx
        · exact ⟨i, v, rfl, hctr.trans hv, hlt⟩
        · cases hx
      | cons p ps =>
        obtain ⟨v, hv, hval⟩ := counterAt_appendPlain (List.cons_ne_nil p ps) hc hfit
        rcases hx with ⟨i, v₀, rfl, hv₀, hlt⟩ | hx
        · rw [hc, Except.ok.injEq] at hv₀
          subst hv₀
          exact ⟨i, v, rfl, hctr.trans hv, by omega⟩
        · obtain ⟨i, rfl, -, hhi, -⟩ := hrunKeys x hx
          exact ⟨i, v, rfl, hctr.trans hv, by omega⟩

/-- Removing a data entry after releasing its chunks. -/
theorem erase (h : OwnedChunks sp t) (hκ : DataKey sp κ) :
    OwnedChunks sp ((t.release (chunks sp) κ).erase κ) := by
  have hctr : ((t.release (chunks sp) κ).erase κ).counterAt (chunks sp).counter =
      t.counterAt (chunks sp).counter := by
    apply counterAt_congr
    rw [get?_erase, if_neg (Ne.symm hκ.ne_chunkCounter),
      get?_release_of_ne fun x => (entryKey_ne_own_counter _ x).symm]
  refine h.write hκ List.nodup_nil (fun _ hx => by cases hx) (fun κ' hκ' => ?_) (fun x => ?_)
    (fun x hx => ?_)
  · by_cases hk : κ' = κ
    · rw [if_pos hk]
      exact refsAt_of_get?_none (by rw [get?_erase, if_pos hk])
    · rw [if_neg hk]
      exact refsAt_congr (by rw [get?_erase, if_neg hk, get?_release_of_ne hκ'.ne_chunk])
  · rw [contains_eq, get?_erase, if_neg (Ne.symm (hκ.ne_chunk x)), ← contains_eq,
      contains_release_entry]
    simp [and_comm]
  · rcases hx with ⟨i, v, rfl, hv, hlt⟩ | hx
    · exact ⟨i, v, rfl, hctr.trans hv, hlt⟩
    · cases hx

/-- Clearing a data bucket: its entries and the chunks they list are removed, then every key
under its prefix. -/
theorem clearBucket (h : OwnedChunks sp t) {b : Bucket} (hb : b.IsData sp) :
    OwnedChunks sp ((t.eraseAll (((t.scan b.entries).flatMap fun e => chunkRefs e.2).map
      (chunks sp).entryKey)).erasePrefix b.keyPrefix) := by
  have hentries : b.keyPrefix <+: b.entries := ⟨[0x00], rfl⟩
  -- a chunk key is released exactly when an entry of the bucket lists it
  have hreleased : ∀ x, (chunks sp).entryKey x ∈
      ((t.scan b.entries).flatMap fun e => chunkRefs e.2).map (chunks sp).entryKey ↔
      ∃ κ', b.entries <+: κ' ∧ x ∈ t.refsAt κ' := by
    intro x
    rw [List.mem_map]
    simp only [entryKey_right_inj, exists_eq_right]
    exact mem_flatMap_scan_iff
  have hctr : ((t.eraseAll (((t.scan b.entries).flatMap fun e => chunkRefs e.2).map
      (chunks sp).entryKey)).erasePrefix b.keyPrefix).counterAt (chunks sp).counter =
        t.counterAt (chunks sp).counter := by
    apply counterAt_congr
    rw [get?_erasePrefix, if_neg hb.not_keyPrefix_chunkCounter, get?_eraseAll, if_neg]
    simp only [List.mem_map, not_exists, not_and]
    exact fun y _ hy => entryKey_ne_own_counter _ y hy
  refine h.clear (fun κ' => b.entries <+: κ') (fun κ' _ hD => ?_) (fun κ' hκ' hD => ?_)
    (fun x => ?_) (fun x hx => ?_)
  · exact refsAt_of_get?_none (by rw [get?_erasePrefix, if_pos (hentries.trans hD)])
  · obtain ⟨b', k, hb', rfl⟩ := hκ'
    apply refsAt_congr
    rw [get?_erasePrefix, if_neg fun hp => hD (hb.entries_prefix_of_keyPrefix hb' hp),
      get?_eraseAll, if_neg]
    simp only [List.mem_map, not_exists, not_and]
    exact fun y _ hy => hb'.entryKey_ne_chunk k y hy.symm
  · rw [contains_eq, get?_erasePrefix, if_neg (hb.not_keyPrefix_chunk x), get?_eraseAll]
    by_cases hx : (chunks sp).entryKey x ∈
        ((t.scan b.entries).flatMap fun e => chunkRefs e.2).map (chunks sp).entryKey
    · obtain ⟨κ', hD, hmem⟩ := (hreleased x).1 hx
      obtain ⟨k, rfl⟩ := entries_prefix_iff.1 hD
      simp only [hx, if_true, Option.isSome_none, Bool.false_eq_true, false_iff, not_and]
      exact fun _ hfree => hfree _ ⟨b, k, hb, rfl⟩ hD hmem
    · rw [if_neg hx, ← contains_eq]
      refine ⟨fun hc => ⟨hc, fun κ' _ hD hmem => hx ((hreleased x).2 ⟨κ', hD, hmem⟩)⟩,
        fun hc => hc.1⟩
  · obtain ⟨i, v, rfl, hv, hlt⟩ := hx
    exact ⟨i, v, rfl, hctr.trans hv, hlt⟩

/-- A namespace after every key under its prefix is removed. -/
theorem erasePrefix (t : Table) : OwnedChunks sp (t.erasePrefix sp) :=
  of_empty fun a ha => by rw [get?_erasePrefix, if_pos ha]

/-- Writing a key that is no data entry, chunk entry or chunk counter of the namespace. -/
theorem insert_other (h : OwnedChunks sp t) {k v : Bytes} (hdata : ∀ κ, DataKey sp κ → κ ≠ k)
    (hchunk : ∀ x, (chunks sp).entryKey x ≠ k) (hctr : (chunks sp).counter ≠ k) :
    OwnedChunks sp (t.insert k v) :=
  h.of_views (fun κ hκ => refsAt_congr (by rw [get?_insert, if_neg (hdata κ hκ)]))
    (fun x => by rw [contains_eq, get?_insert, if_neg (hchunk x), ← contains_eq])
    (counterAt_congr (by rw [get?_insert, if_neg hctr]))

end OwnedChunks

/-! ## Every namespace -/

/-- Two namespaces' prefixes start no key in common. -/
theorem Keys.eq_of_namespacePrefix_prefix {n n' a : Bytes} (hn : n.length ≤ Keys.maxNameLength)
    (hn' : n'.length ≤ Keys.maxNameLength) (h : Keys.namespacePrefix n <+: a)
    (h' : Keys.namespacePrefix n' <+: a) : n = n' := by
  rcases List.prefix_or_prefix_of_prefix h h' with hp | hp
  · rw [← List.append_nil (Keys.namespacePrefix n')] at hp
    exact (Keys.namespacePrefix_prefix_iff hn hn').1 hp
  · rw [← List.append_nil (Keys.namespacePrefix n)] at hp
    exact ((Keys.namespacePrefix_prefix_iff hn' hn).1 hp).symm

/-- The chunks of every namespace whose name can be keyed are owned by its data entries. -/
def Table.ChunksOwned (t : Table) : Prop :=
  ∀ n : Bytes, n.length ≤ Keys.maxNameLength → OwnedChunks (Keys.namespacePrefix n) t

namespace Table.ChunksOwned

variable {t t' : Table} {n : Bytes}

/-- A change inside one namespace that keeps that namespace's chunks owned keeps every
namespace's. -/
theorem update (h : t.ChunksOwned) (hn : n.length ≤ Keys.maxNameLength)
    (hsame : ∀ a, ¬ Keys.namespacePrefix n <+: a → t'.get? a = t.get? a)
    (hhere : OwnedChunks (Keys.namespacePrefix n) t → OwnedChunks (Keys.namespacePrefix n) t') :
    t'.ChunksOwned := by
  intro n' hn'
  by_cases heq : n' = n
  · subst heq
    exact hhere (h n' hn')
  · exact (h n' hn').congr fun a ha =>
      hsame a fun hp => heq (Keys.eq_of_namespacePrefix_prefix hn' hn ha hp)

/-! ### The writes of a transaction -/

section Txn

open Bucket

variable {b : Bucket} {key value : Bytes}

/-- A key outside a prefix is none of the keys under it. -/
theorem ne_of_outside {p a k : Bytes} (hk : p <+: k) (ha : ¬ p <+: a) : a ≠ k :=
  fun heq => ha (heq ▸ hk)

/-- A chunk entry lies in its namespace. -/
theorem chunk_in_namespace (x : Bytes) :
    Keys.namespacePrefix n <+: (chunks (Keys.namespacePrefix n)).entryKey x :=
  space_prefix_entryKey (chunks (Keys.namespacePrefix n)) x

/-- A chunk counter lies in its namespace. -/
theorem chunkCounter_in_namespace :
    Keys.namespacePrefix n <+: (chunks (Keys.namespacePrefix n)).counter :=
  space_prefix_counter (chunks (Keys.namespacePrefix n))

/-- Storing a value in a data bucket. -/
theorem putIn (h : t.ChunksOwned) (hb : b.IsData (Keys.namespacePrefix n))
    (hn : n.length ≤ Keys.maxNameLength) {info : Option Meta} {u : Unit}
    (hput : b.putIn key value info t = .ok (u, t')) : t'.ChunksOwned := by
  obtain ⟨c, ps, record, hrun, hrec, rfl⟩ := putIn_eq_ok hb.chunked hput
  have hsp := hb.space
  rw [hsp] at hrun ⊢
  refine h.update hn (fun a ha => ?_) (fun ho => ho.store ⟨b, key, hb, rfl⟩ hrun hrec)
  -- every key the store touches lies in the namespace
  rw [get?_insert, if_neg (ne_of_outside (hsp ▸ space_prefix_entryKey b key) ha),
    get?_release_of_ne fun x => ne_of_outside (chunk_in_namespace x) ha,
    get?_appendPlain_of_ne (ne_of_outside chunkCounter_in_namespace ha)
      fun k _ => ne_of_outside (chunk_in_namespace k) ha]

/-- Removing an entry of a data bucket. -/
theorem deleteIn (h : t.ChunksOwned) (hb : b.IsData (Keys.namespacePrefix n))
    (hn : n.length ≤ Keys.maxNameLength) {found : Bool}
    (hdel : b.deleteIn key t = .ok (found, t')) : t'.ChunksOwned := by
  rw [deleteIn_eq hb.chunked] at hdel
  simp only [Except.ok.injEq, Prod.mk.injEq] at hdel
  obtain ⟨-, rfl⟩ := hdel
  have hsp := hb.space
  rw [hsp]
  refine h.update hn (fun a ha => ?_) (fun ho => ho.erase ⟨b, key, hb, rfl⟩)
  rw [get?_erase, if_neg (ne_of_outside (hsp ▸ space_prefix_entryKey b key) ha),
    get?_release_of_ne fun x => ne_of_outside (chunk_in_namespace x) ha]

/-- Clearing a data bucket. -/
theorem clearIn (h : t.ChunksOwned) (hb : b.IsData (Keys.namespacePrefix n))
    (hn : n.length ≤ Keys.maxNameLength) {u : Unit} (hclr : b.clearIn t = .ok (u, t')) :
    t'.ChunksOwned := by
  rw [clearIn_eq hb.chunked] at hclr
  cases hclr
  have hsp := hb.space
  rw [hsp]
  refine h.update hn (fun a ha => ?_) (fun ho => ho.clearBucket hb)
  have hkey : Keys.namespacePrefix n <+: b.keyPrefix := hsp ▸ ⟨_, rfl⟩
  rw [get?_erasePrefix, if_neg fun hp => ha (hkey.trans hp), get?_eraseAll, if_neg]
  simp only [List.mem_map, not_exists, not_and]
  exact fun x _ hx => ne_of_outside (chunk_in_namespace x) ha hx.symm

/-- Removing every key of a namespace. -/
theorem erasePrefix (h : t.ChunksOwned) (hn : n.length ≤ Keys.maxNameLength) :
    (t.erasePrefix (Keys.namespacePrefix n)).ChunksOwned :=
  h.update hn (fun a ha => by rw [get?_erasePrefix, if_neg ha])
    fun _ => OwnedChunks.erasePrefix t

/-- Raising the counter of a data bucket: the counter is no key the invariant reads. -/
theorem insert_counter (h : t.ChunksOwned) (hb : b.IsData (Keys.namespacePrefix n))
    (hn : n.length ≤ Keys.maxNameLength) (v : Bytes) : (t.insert b.counter v).ChunksOwned := by
  have hsp := hb.space
  refine h.update hn (fun a ha => ?_) fun ho => ho.insert_other ?_ ?_ ?_
  · rw [get?_insert, if_neg (ne_of_outside (hsp ▸ space_prefix_counter b) ha)]
  · rintro κ ⟨b', k', hb', rfl⟩
    exact entryKey_ne_counter (hb'.space.trans hsp.symm) hb'.name_le hb.name_le
  · intro x
    exact entryKey_ne_counter hsp.symm (chunks_name_le _) hb.name_le
  · have hs : (chunks (Keys.namespacePrefix n)).space = b.space := hsp.symm
    rw [Ne, counter_inj hs (chunks_name_le _) hb.name_le]
    exact fun ⟨hk, hnm⟩ => hb.not_chunks ⟨hk.symm, hnm.symm⟩

/-- Appending a value to a data bucket: its counter is raised, then the value stored. -/
theorem appendIn (h : t.ChunksOwned) (hb : b.IsData (Keys.namespacePrefix n))
    (hn : n.length ≤ Keys.maxNameLength) {info : Option Meta} {k : Bytes}
    (happ : b.appendIn value info t = .ok (k, t')) : t'.ChunksOwned := by
  obtain ⟨c, -, -, -, hput⟩ := appendIn_eq_ok happ
  exact (h.insert_counter hb hn _).putIn hb hn hput

/-- Adding a namespace name to the stored list: the list lies outside every namespace. -/
theorem addIn_namespaceList (h : t.ChunksOwned) {name : Bytes} {added : Bool}
    (hadd : NameList.addIn Keys.namespaceList name t = .ok (added, t')) : t'.ChunksOwned := by
  rcases NameList.addIn_eq_ok hadd with rfl | ⟨v, rfl⟩
  · exact h
  · intro n hn
    refine (h n hn).congr fun a ha => ?_
    have hne : a ≠ Keys.namespaceList := fun heq =>
      Keys.not_namespacePrefix_prefix_namespaceList n (heq ▸ ha)
    rw [get?_insert, if_neg hne]

/-- Writing a namespace's stored bucket list: the list is no key the invariant reads. -/
theorem insert_bucketList (h : t.ChunksOwned) (hn : n.length ≤ Keys.maxNameLength) (v : Bytes) :
    (t.insert (Keys.bucketList (Keys.namespacePrefix n)) v).ChunksOwned := by
  refine h.update hn (fun a ha => ?_) fun ho => ho.insert_other ?_ ?_ ?_
  · have hlist : Keys.namespacePrefix n <+: Keys.bucketList (Keys.namespacePrefix n) :=
      ⟨_, rfl⟩
    rw [get?_insert, if_neg (ne_of_outside hlist ha)]
  · rintro κ ⟨b', k', hb', rfl⟩
    rw [entryKey_eq, hb'.space]
    exact bucketPrefix_ne_bucketList
  · intro x
    rw [entryKey_eq]
    exact bucketPrefix_ne_bucketList
  · rw [counter_eq]
    exact bucketPrefix_ne_bucketList

/-- Adding a bucket name to a namespace's stored list. -/
theorem addIn_bucketList (h : t.ChunksOwned) (hn : n.length ≤ Keys.maxNameLength)
    {name : Bytes} {added : Bool}
    (hadd : NameList.addIn (Keys.bucketList (Keys.namespacePrefix n)) name t = .ok (added, t')) :
    t'.ChunksOwned := by
  rcases NameList.addIn_eq_ok hadd with rfl | ⟨v, rfl⟩
  · exact h
  · exact h.insert_bucketList hn v

/-- Storing objects one after another in a namespace's object bucket. -/
theorem forIn_putIn (h : t.ChunksOwned) (hn : n.length ≤ Keys.maxNameLength)
    {objs : List Resource} {u : PUnit}
    (hloop : (forIn objs PUnit.unit fun o _ => do
        (Bucket.objects (Keys.namespacePrefix n)).putIn o.key o.data o.info
        pure (ForInStep.yield PUnit.unit) : Txn PUnit) t = .ok (u, t')) :
    t'.ChunksOwned := by
  induction objs generalizing t with
  | nil =>
    cases hloop
    exact h
  | cons o os ih =>
    rw [List.forIn_cons] at hloop
    obtain ⟨step, t₁, hbody, hrest⟩ := bind_run_eq_ok.1 hloop
    obtain ⟨_, t₂, hput, hpure⟩ := bind_run_eq_ok.1 hbody
    simp only [Txn.pure_run, Except.ok.injEq, Prod.mk.injEq] at hpure
    obtain ⟨rfl, rfl⟩ := hpure
    exact ih (h.putIn (.inr (.inl rfl)) hn hput) hrest

end Txn

end Table.ChunksOwned

end ArchiveStore
