import ArchiveStore.Proofs.NameLists.Frame
/-!
# The stored name lists and the names created

A store keeps the names of its namespaces, and each namespace the names of its user buckets,
in lists of first occurrences: adding a name appends it unless it is there already. So a list
is the names added to it, repeats dropped, in the order they were first added; that is
`List.eraseDups` of the names added.

`Creations` records the names asked for, repeats included: the namespaces created, and for
each namespace the user buckets created since it was last emptied. `Table.Lists t c` says the
lists a table stores are `c`'s with repeats dropped. It survives every write that keeps the
name-list keys (`Table.Lists.congr`), and moves along with `c` when a name is added to a list
(`Table.Lists.addIn_namespaceList`, `Table.Lists.addIn_bucketList`) and when a namespace is
emptied (`Table.Lists.erasePrefix`).

A list is stored as a length and its names, each with its length: names and lists must be
shorter than `2 ^ 64`, which `Creations.Bounded` carries for the names created.
-/

namespace ArchiveStore

/-! ## First occurrences -/

section EraseDups

variable {α : Type} [BEq α]

theorem length_eraseDups_le : (l : List α) → l.eraseDups.length ≤ l.length
  | [] => Nat.le_refl 0
  | a :: as => by
    rw [List.eraseDups_cons, List.length_cons, List.length_cons]
    have := length_eraseDups_le (as.filter fun b => !b == a)
    have := List.length_filter_le (fun b => !b == a) as
    omega
termination_by l => l.length
decreasing_by exact Nat.lt_succ_of_le (List.length_filter_le _ _)

variable [LawfulBEq α]

/-- An element added at the end joins the first occurrences unless it is already there. -/
theorem eraseDups_append_singleton (l : List α) (a : α) :
    (l ++ [a]).eraseDups = if a ∈ l then l.eraseDups else l.eraseDups ++ [a] := by
  rw [List.eraseDups_append]
  by_cases h : a ∈ l <;> simp [List.removeAll, List.eraseDups_cons, h]

theorem nodup_eraseDups : (l : List α) → l.eraseDups.Nodup
  | [] => List.nodup_nil
  | a :: as => by
    rw [List.eraseDups_cons, List.nodup_cons, List.mem_eraseDups]
    exact ⟨fun h => by simpa using (List.mem_filter.1 h).2, nodup_eraseDups _⟩
termination_by l => l.length
decreasing_by exact Nat.lt_succ_of_le (List.length_filter_le _ _)

/-- A list without repeats is its own first occurrences. -/
theorem eraseDups_of_nodup : {l : List α} → l.Nodup → l.eraseDups = l
  | [], _ => rfl
  | a :: as, h => by
    rw [List.nodup_cons] at h
    have hkeep : as.filter (fun b => !b == a) = as :=
      List.filter_eq_self.2 fun b hb => by
        simpa using fun heq : b = a => h.1 (heq ▸ hb)
    rw [List.eraseDups_cons, hkeep, eraseDups_of_nodup h.2]

end EraseDups

/-! ## Keys of the name lists -/

namespace Keys

theorem bucketList_ne_namespaceList (n : Bytes) :
    bucketList (namespacePrefix n) ≠ namespaceList := by
  simp [bucketList, namespacePrefix, namespaceList]

/-- Bucket lists of namespaces whose names can be keyed are told apart by the names. -/
theorem bucketList_inj {m n : Bytes} (hm : m.length ≤ maxNameLength)
    (hn : n.length ≤ maxNameLength) :
    bucketList (namespacePrefix m) = bucketList (namespacePrefix n) ↔ m = n := by
  constructor
  · intro h
    exact ((namespacePrefix_append_inj hm hn).1 h).1
  · rintro rfl
    rfl

/-- A namespace's prefix reaches no other namespace's bucket list. -/
theorem not_namespacePrefix_prefix_bucketList {m n : Bytes} (hm : m.length ≤ maxNameLength)
    (hn : n.length ≤ maxNameLength) (hne : m ≠ n) :
    ¬ namespacePrefix n <+: bucketList (namespacePrefix m) := fun h =>
  hne ((namespacePrefix_prefix_iff hn hm).1 h).symm

end Keys

/-! ## Stored lists -/

namespace NameList

/-- A list of names, each shorter than `2 ^ 64`, and fewer than `2 ^ 64` of them, reads back
from its stored form. -/
theorem decode_pack {names : List Bytes} (hlen : names.length < Nat.pow 256 8)
    (hnames : ∀ x ∈ names, x.length < Nat.pow 256 8) : decode (some (pack names)) = .ok names := by
  have h : Packed.readList Packed.readBytes (Packed.list Packed.bytes names ++ []) = .ok (names, []) :=
    Packed.readList_append names [] hlen fun x hx r => Packed.readBytes_append r (hnames x hx)
  rw [List.append_nil] at h
  simp only [decode, pack, Packed.Reader.parse, StateT.run, h, Except.map]

/-- Adding a name to a list that reads back appends it, unless it is there already. -/
theorem read_addIn {key name : Bytes} {names : List Bytes} {added : Bool} {t t' : Table}
    (hread : read t key = .ok names) (hlen : names.length + 1 < Nat.pow 256 8)
    (hnames : ∀ x ∈ names ++ [name], x.length < Nat.pow 256 8)
    (h : addIn key name t = .ok (added, t')) :
    read t' key = .ok (if name ∈ names then names else names ++ [name]) := by
  rw [addIn_eq, hread] at h
  by_cases hmem : name ∈ names
  · have hc : names.contains name = true := List.contains_iff_mem.2 hmem
    simp only [Except.bind, hc, if_true, Except.ok.injEq, Prod.mk.injEq] at h
    rw [← h.2, if_pos hmem, hread]
  · have hc : names.contains name = false := by simpa [List.contains_iff_mem] using hmem
    simp only [Except.bind, hc, Bool.false_eq_true, if_false, Except.ok.injEq,
      Prod.mk.injEq] at h
    rw [← h.2, if_neg hmem, read, Table.get?_insert, if_pos rfl]
    exact decode_pack (by simpa using hlen) hnames

/-- A list of at most `N` valid names, with one valid name more, still has a stored form that
reads back, for `N + 1` below `2 ^ 64`. -/
theorem fits_append {N : Nat} {names : List Bytes} (hN : N + 1 < Nat.pow 256 8)
    (hlen : names.length ≤ N) (hvalid : ∀ x ∈ names, Keys.ValidName x) {name : Bytes}
    (hn : Keys.ValidName name) :
    names.length + 1 < Nat.pow 256 8 ∧ ∀ x ∈ names ++ [name], x.length < Nat.pow 256 8 := by
  refine ⟨by omega, fun x hx => ?_⟩
  -- a valid name has at most 255 bytes
  have hv : Keys.ValidName x := by
    rcases List.mem_append.1 hx with hx | hx
    · exact hvalid x hx
    · rw [List.mem_singleton.1 hx]
      exact hn
  have h255 := hv.2
  have hpow : Keys.maxNameLength < Nat.pow 256 8 := by decide
  omega

end NameList

/-- The prefix of a namespace's keys. -/
theorem Space.keyPrefix_eq (name : Bytes) : Space.keyPrefix name = Keys.namespacePrefix name :=
  rfl

/-! ## The names created -/

/-- The names created on stores open for writing, as they were asked for, repeats included. -/
structure Creations where
  /-- Every namespace created, in order. -/
  spaces : List Bytes
  /-- For each namespace, every user bucket created since the namespace was last emptied, in
  order. -/
  buckets : Bytes → List Bytes

namespace Creations

/-- Nothing created yet. -/
def empty : Creations := ⟨[], fun _ => []⟩

/-- A namespace created. -/
def addSpace (c : Creations) (name : Bytes) : Creations :=
  { c with spaces := c.spaces ++ [name] }

/-- A user bucket of a namespace created. -/
def addBucket (c : Creations) (space name : Bytes) : Creations :=
  { c with buckets := fun n => if n = space then c.buckets n ++ [name] else c.buckets n }

/-- A namespace emptied: its bucket names are gone, its own name stays. -/
def clearSpace (c : Creations) (space : Bytes) : Creations :=
  { c with buckets := fun n => if n = space then [] else c.buckets n }

/-- Every name created is a name keys can be built from, and each list of them has at most `N`
entries. -/
structure Bounded (c : Creations) (N : Nat) : Prop where
  spaces : ∀ n ∈ c.spaces, Keys.ValidName n
  buckets : ∀ m, ∀ b ∈ c.buckets m, Keys.ValidName b
  spaces_length : c.spaces.length ≤ N
  buckets_length : ∀ m, (c.buckets m).length ≤ N

namespace Bounded

variable {c : Creations} {N : Nat}

theorem empty (N : Nat) : Creations.empty.Bounded N :=
  ⟨fun _ h => (List.not_mem_nil h).elim, fun _ _ h => (List.not_mem_nil h).elim, Nat.zero_le N,
    fun _ => Nat.zero_le N⟩

theorem mono (h : c.Bounded N) {N' : Nat} (hle : N ≤ N') : c.Bounded N' :=
  ⟨h.spaces, h.buckets, Nat.le_trans h.spaces_length hle,
    fun m => Nat.le_trans (h.buckets_length m) hle⟩

theorem addSpace (h : c.Bounded N) {name : Bytes} (hn : Keys.ValidName name) :
    (c.addSpace name).Bounded (N + 1) := by
  refine ⟨fun n hmem => ?_, h.buckets, ?_, fun m => Nat.le_succ_of_le (h.buckets_length m)⟩
  · rcases List.mem_append.1 hmem with hmem | hmem
    · exact h.spaces n hmem
    · rw [List.mem_singleton.1 hmem]
      exact hn
  · simpa [Creations.addSpace] using h.spaces_length

theorem addBucket (h : c.Bounded N) {space name : Bytes} (hn : Keys.ValidName name) :
    (c.addBucket space name).Bounded (N + 1) := by
  refine ⟨h.spaces, fun m b hb => ?_, Nat.le_succ_of_le h.spaces_length, fun m => ?_⟩
  · simp only [Creations.addBucket] at hb
    split at hb
    · rcases List.mem_append.1 hb with hb | hb
      · exact h.buckets m b hb
      · rw [List.mem_singleton.1 hb]
        exact hn
    · exact h.buckets m b hb
  · simp only [Creations.addBucket]
    split
    · simpa using h.buckets_length m
    · exact Nat.le_succ_of_le (h.buckets_length m)

theorem clearSpace (h : c.Bounded N) (space : Bytes) : (c.clearSpace space).Bounded N := by
  refine ⟨h.spaces, fun m b hb => ?_, h.spaces_length, fun m => ?_⟩
  · simp only [Creations.clearSpace] at hb
    split at hb
    · cases hb
    · exact h.buckets m b hb
  · simp only [Creations.clearSpace]
    split
    · exact Nat.zero_le N
    · exact h.buckets_length m

end Bounded

end Creations

/-! ## Tables that store the lists of the names created -/

/-- The name lists a table stores are those of `c`, each name once, in the order it was first
created. -/
structure Table.Lists (t : Table) (c : Creations) : Prop where
  spaces : NameList.read t Keys.namespaceList = .ok c.spaces.eraseDups
  buckets : ∀ n, n.length ≤ Keys.maxNameLength →
    NameList.read t (Keys.bucketList (Space.keyPrefix n)) = .ok (c.buckets n).eraseDups

namespace Table.Lists

variable {t t' : Table} {c : Creations} {N : Nat}

/-- A table that agrees on every name-list key stores the same lists. -/
theorem congr (h : t.Lists c) (hsame : ∀ k, Keys.NameListKey k → t'.get? k = t.get? k) :
    t'.Lists c := by
  refine ⟨?_, fun n hn => ?_⟩
  · rw [NameList.read, hsame _ (.inl rfl)]
    exact h.spaces
  · rw [NameList.read, Space.keyPrefix_eq, hsame _ (.inr ⟨n, hn, rfl⟩)]
    exact h.buckets n hn

/-- An empty table stores empty lists. -/
theorem empty : Table.empty.Lists Creations.empty :=
  ⟨rfl, fun _ _ => rfl⟩

variable (hc : c.Bounded N) (hN : N + 1 < Nat.pow 256 8)
include hc hN

/-- Adding a namespace name to the stored list records its creation. -/
theorem addIn_namespaceList (h : t.Lists c) {name : Bytes} (hn : Keys.ValidName name)
    {added : Bool} (hadd : NameList.addIn Keys.namespaceList name t = .ok (added, t')) :
    t'.Lists (c.addSpace name) := by
  obtain ⟨hlen, hnames⟩ := NameList.fits_append hN
    (Nat.le_trans (length_eraseDups_le c.spaces) hc.spaces_length)
    (fun x hx => hc.spaces x (List.mem_eraseDups.1 hx)) hn
  refine ⟨?_, fun n hn' => ?_⟩
  · rw [NameList.read_addIn h.spaces hlen hnames hadd, Creations.addSpace,
      eraseDups_append_singleton]
    simp only [List.mem_eraseDups]
  · -- the bucket lists lie inside namespaces, away from the namespace list
    have hne : Keys.bucketList (Space.keyPrefix n) ≠ Keys.namespaceList :=
      Keys.bucketList_ne_namespaceList n
    rcases NameList.addIn_eq_ok hadd with rfl | ⟨v, rfl⟩
    · exact h.buckets n hn'
    · rw [NameList.read, Table.get?_insert, if_neg hne]
      exact h.buckets n hn'

/-- Adding a bucket name to its namespace's stored list records its creation. -/
theorem addIn_bucketList (h : t.Lists c) {space name : Bytes}
    (hsp : space.length ≤ Keys.maxNameLength) (hn : Keys.ValidName name) {added : Bool}
    (hadd : NameList.addIn (Keys.bucketList (Space.keyPrefix space)) name t = .ok (added, t')) :
    t'.Lists (c.addBucket space name) := by
  refine ⟨?_, fun m hm => ?_⟩
  · rcases NameList.addIn_eq_ok hadd with rfl | ⟨v, rfl⟩
    · exact h.spaces
    · have hne : Keys.namespaceList ≠ Keys.bucketList (Space.keyPrefix space) :=
        (Keys.bucketList_ne_namespaceList space).symm
      rw [NameList.read, Table.get?_insert, if_neg hne]
      exact h.spaces
  · by_cases hms : m = space
    · subst hms
      obtain ⟨hlen, hnames⟩ := NameList.fits_append hN
        (Nat.le_trans (length_eraseDups_le _) (hc.buckets_length m))
        (fun x hx => hc.buckets m x (List.mem_eraseDups.1 hx)) hn
      rw [NameList.read_addIn (h.buckets m hm) hlen hnames hadd, Creations.addBucket]
      simp only [if_true]
      rw [eraseDups_append_singleton]
      simp only [List.mem_eraseDups]
    · -- another namespace's bucket list is another key
      have hne : Keys.bucketList (Space.keyPrefix m) ≠ Keys.bucketList (Space.keyPrefix space) :=
        fun heq => hms ((Keys.bucketList_inj hm hsp).1 heq)
      have hrest : (c.addBucket space name).buckets m = c.buckets m := by
        simp [Creations.addBucket, hms]
      rw [hrest]
      rcases NameList.addIn_eq_ok hadd with rfl | ⟨v, rfl⟩
      · exact h.buckets m hm
      · rw [NameList.read, Table.get?_insert, if_neg hne]
        exact h.buckets m hm

end Table.Lists

/-- Emptying a namespace wipes its bucket list and keeps every other list. -/
theorem Table.Lists.erasePrefix {t : Table} {c : Creations} (h : t.Lists c) {space : Bytes}
    (hsp : space.length ≤ Keys.maxNameLength) :
    (t.erasePrefix (Space.keyPrefix space)).Lists (c.clearSpace space) := by
  refine ⟨?_, fun m hm => ?_⟩
  · rw [NameList.read, Table.get?_erasePrefix, Space.keyPrefix_eq,
      if_neg (Keys.not_namespacePrefix_prefix_namespaceList space)]
    exact h.spaces
  · by_cases hms : m = space
    · subst hms
      have hp : Space.keyPrefix m <+: Keys.bucketList (Space.keyPrefix m) := ⟨_, rfl⟩
      rw [NameList.read, Table.get?_erasePrefix, if_pos hp]
      simp [Creations.clearSpace, NameList.decode]
    · have hrest : (c.clearSpace space).buckets m = c.buckets m := by
        simp [Creations.clearSpace, hms]
      rw [hrest, NameList.read, Table.get?_erasePrefix, Space.keyPrefix_eq, Space.keyPrefix_eq,
        if_neg (Keys.not_namespacePrefix_prefix_bucketList hm hsp hms)]
      exact h.buckets m hm

end ArchiveStore
