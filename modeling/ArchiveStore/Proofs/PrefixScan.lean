import ArchiveStore.Proofs.Cursor.Walk
/-!
# Prefix scans reach exactly the extensions of the prefix

A prefix scan walks the table from `p` up to `Keys.successor p`: the key `p` becomes once its
trailing `FF` bytes are dropped and its last other byte is raised. A prefix of `FF` bytes only,
the empty one included, has no successor, and its scan runs to the end of the table.

* `Keys.successor_eq_none_iff`: there is no successor exactly when every byte of the prefix is
  `FF`; then no key lies above every extension of the prefix (`Keys.not_above_of_forall_ff`).
* `Keys.above_successor`, `Keys.successor_le_of_above`: otherwise the successor lies above
  every extension of the prefix, and at or below every key that does.
* `Table.scan_eq_filter`, `Table.entries_erasePrefix`: a scan lists, in key order, exactly the
  entries whose keys extend the prefix, and a removal keeps exactly the others.
* `prefix_scans_visit_extensions` gathers these facts with `Keys.withinPrefix_iff`.
-/

namespace ArchiveStore

namespace Keys

variable {p s u : Bytes}

/-- `u` lies above every key that starts with `p`. -/
def Above (p u : Bytes) : Prop := ∀ k, p <+: k → k < u

/-- No key of at most `n` bytes lies above `n` bytes `FF`. -/
theorem not_replicate_ff_lt {r : Bytes} {n : Nat} (h : r.length ≤ n) :
    ¬ List.replicate n 0xFF < r := by
  induction r generalizing n with
  | nil => exact List.not_lt_nil _
  | cons c r ih =>
    cases n with
    | zero => simp at h
    | succ n =>
      rw [List.replicate_succ, List.cons_lt_cons_iff]
      rintro (hc | ⟨rfl, hr⟩)
      · exact not_ff_lt c hc
      · exact ih (by simpa using h) hr

/-- The bounds of a prefix scan test whether a key extends the prefix. -/
theorem withinPrefix_eq_isPrefixOf (p k : Bytes) : withinPrefix p k = p.isPrefixOf k := by
  rw [Bool.eq_iff_iff, List.isPrefixOf_iff_prefix]
  exact withinPrefix_iff p k

/-- A reversed prefix has no successor exactly when all its bytes are `FF`. -/
theorem successorRev_eq_none_iff {r : Bytes} : successorRev r = none ↔ ∀ b ∈ r, b = 0xFF := by
  induction r with
  | nil => simp [successorRev]
  | cons b r ih =>
    by_cases hb : b < 0xFF
    · -- the first byte is raised: there is a successor, and a byte other than `FF`
      simp only [successorRev, if_pos hb, reduceCtorEq, false_iff]
      intro hff
      exact UInt8.ne_of_lt hb (hff b List.mem_cons_self)
    · rw [successorRev, if_neg hb, ih, List.forall_mem_cons]
      exact ⟨fun h => ⟨eq_ff_of_not_lt hb, h⟩, fun h => h.2⟩

/-- A prefix has no successor exactly when all its bytes are `FF`, the empty prefix included. -/
theorem successor_eq_none_iff : successor p = none ↔ ∀ b ∈ p, b = 0xFF := by
  rw [successor, Option.map_eq_none_iff, successorRev_eq_none_iff]
  simp only [List.mem_reverse]

/-- Above a prefix of `FF` bytes only, no key lies above every extension: the prefix followed by
as many `FF` as the key has bytes is not below it. -/
theorem not_above_of_forall_ff (hp : ∀ b ∈ p, b = 0xFF) (u : Bytes) : ¬ Above p u := by
  intro hu
  have hrep : p = List.replicate p.length 0xFF := List.eq_replicate_iff.2 ⟨rfl, hp⟩
  have hk := hu (p ++ List.replicate u.length 0xFF) (List.prefix_append _ _)
  rw [hrep, List.replicate_append_replicate] at hk
  exact not_replicate_ff_lt (by omega) hk

/-- The successor lies above every extension of the prefix. -/
theorem above_successor (h : successor p = some s) : Above p s := by
  intro k hk
  have hw := (withinPrefix_iff p k).2 hk
  simp only [withinPrefix, withinBounds, h, Bool.and_eq_true, decide_eq_true_eq] at hw
  exact hw.2

/-- A key above every extension of the prefix is at or above its successor. -/
theorem successor_le_of_above (h : successor p = some s) (hu : Above p u) : s ≤ u := by
  -- `s ≤ u` says `¬ u < s`; a key in `[p, s)` extends `p`, and so some extension is not below it
  intro hlt
  have hk : p ++ List.replicate u.length 0xFF < u := hu _ (List.prefix_append _ _)
  have hpu : p ≤ u := List.le_trans (List.prefix_append _ _).le (List.le_of_lt hk)
  have hw : withinPrefix p u = true := by
    simp only [withinPrefix, withinBounds, h, Bool.and_eq_true, decide_eq_true_eq]
    exact ⟨hpu, hlt⟩
  obtain ⟨r, rfl⟩ := (withinPrefix_iff p u).1 hw
  rw [Bytes.append_lt_append_iff] at hk
  exact not_replicate_ff_lt (by simp) hk

end Keys

namespace Table

/-- A prefix scan lists, in the table's order, exactly the entries whose keys extend the
prefix. -/
theorem scan_eq_filter (t : Table) (p : Bytes) :
    t.scan p = t.entries.filter fun e => p.isPrefixOf e.1 :=
  List.filter_congr fun e _ => Keys.withinPrefix_eq_isPrefixOf p e.1

/-- Removing a prefix keeps, in the table's order, exactly the entries whose keys do not
extend it. -/
theorem entries_erasePrefix (t : Table) (p : Bytes) :
    (t.erasePrefix p).entries = t.entries.filter fun e => !p.isPrefixOf e.1 := by
  simp only [entries, erasePrefix, Std.TreeMap.toList_filter]
  exact List.filter_congr fun e _ => by rw [← Keys.withinPrefix_eq_isPrefixOf p e.1]; rfl

end Table

/-- Prefix scans visit exactly the keys that extend the prefix. A prefix has no successor
exactly when all its bytes are `FF`, and then no key lies above all its extensions; otherwise
the successor is the least key above all of them. A key lies in `[p, successor p)` exactly when
it extends `p`, so a scan lists, in key order, exactly the entries whose keys extend `p`, and
removing `p` keeps exactly the others. -/
theorem prefix_scans_visit_extensions (p : Bytes) :
    (Keys.successor p = none ↔ ∀ b ∈ p, b = 0xFF) ∧
    (Keys.successor p = none → ∀ u, ¬ Keys.Above p u) ∧
    (∀ s, Keys.successor p = some s → Keys.Above p s ∧ ∀ u, Keys.Above p u → s ≤ u) ∧
    (∀ k, Keys.withinPrefix p k = true ↔ p <+: k) ∧
    ∀ t : Table, t.scan p = t.entries.filter (fun e => p.isPrefixOf e.1) ∧
      (t.erasePrefix p).entries = t.entries.filter (fun e => !p.isPrefixOf e.1) := by
  refine ⟨Keys.successor_eq_none_iff, fun h => ?_, fun s h => ?_, Keys.withinPrefix_iff p,
    fun t => ⟨Table.scan_eq_filter t p, Table.entries_erasePrefix t p⟩⟩
  · exact Keys.not_above_of_forall_ff (Keys.successor_eq_none_iff.1 h)
  · exact ⟨Keys.above_successor h, fun u hu => Keys.successor_le_of_above h hu⟩

end ArchiveStore
