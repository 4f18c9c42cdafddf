import ArchiveStore.Table
import ArchiveStore.Proofs.Keys

/-!
# Tables and transactions, step by step

What each operation on the ordered table does to the value under every key, and what each
primitive step of a transaction returns. Later proofs about writes read a table only through
`Table.get?`, so these lemmas are all they need of the search tree.

* `Table.get?_insert`, `Table.get?_erase`, `Table.get?_eraseAll`: one key, or a list of keys,
  changes and nothing else does.
* `Table.get?_erasePrefix` and `Table.mem_scan`: removing or scanning a prefix reaches exactly
  the keys that start with it, by `Keys.withinPrefix_iff`.
* `Txn.forIn_delete`: a loop of deletes removes its keys; `Txn.nextSequence_eq`: taking a
  number from a counter, as a computation on the table.
-/

namespace ArchiveStore

namespace Table

variable {t : Table} {k a v p : Bytes}

/-- Two keys compare equal exactly when they are equal. -/
theorem compare_eq_iff {x y : Bytes} : compare x y = .eq ↔ x = y :=
  Std.LawfulEqCmp.compare_eq_iff_eq

/-- The table with nothing in it holds no key. -/
@[simp] theorem get?_empty : empty.get? a = none :=
  Std.TreeMap.getElem?_emptyc

/-- Setting a key changes the value under that key only. -/
@[simp] theorem get?_insert : (t.insert k v).get? a = if a = k then some v else t.get? a := by
  simp only [get?, insert, Std.TreeMap.get?_eq_getElem?, Std.TreeMap.getElem?_insert,
    compare_eq_iff]
  by_cases h : a = k
  · simp [h]
  · simp [h, Ne.symm h]

/-- Removing a key changes the value under that key only. -/
@[simp] theorem get?_erase : (t.erase k).get? a = if a = k then none else t.get? a := by
  simp only [get?, erase, Std.TreeMap.get?_eq_getElem?, Std.TreeMap.getElem?_erase,
    compare_eq_iff]
  by_cases h : a = k
  · simp [h]
  · simp [h, Ne.symm h]

/-- Removing a prefix removes exactly the keys that start with it. -/
@[simp] theorem get?_erasePrefix : (t.erasePrefix p).get? a = if p <+: a then none else t.get? a := by
  simp only [get?, erasePrefix, Std.TreeMap.get?_eq_getElem?, Std.TreeMap.getElem?_filter']
  have h := Keys.withinPrefix_iff p a
  unfold Keys.withinPrefix at h
  by_cases hp : p <+: a
  · simp [h.2 hp, hp]
  · have : Keys.withinBounds p (Keys.successor p) a = false := by
      cases hw : Keys.withinBounds p (Keys.successor p) a
      · rfl
      · exact absurd (h.1 hw) hp
    cases t.tree[a]? <;> simp [this, hp]

/-- A key has a value exactly when the table contains it. -/
theorem contains_eq : t.contains k = (t.get? k).isSome :=
  Std.TreeMap.contains_eq_isSome_getElem?

/-- The entries are the keys with their values. -/
theorem mem_entries : (k, v) ∈ t.entries ↔ t.get? k = some v :=
  Std.TreeMap.mem_toList_iff_getElem?_eq_some

/-- A prefix scan lists exactly the entries whose keys start with the prefix. -/
theorem mem_scan : (k, v) ∈ t.scan p ↔ p <+: k ∧ t.get? k = some v := by
  simp only [scan, List.mem_filter, mem_entries]
  rw [show Keys.withinBounds p (Keys.successor p) k = Keys.withinPrefix p k from rfl,
    Keys.withinPrefix_iff, and_comm]

/-- The table without each of some keys. -/
def eraseAll (t : Table) (ks : List Bytes) : Table := ks.foldl erase t

/-- Removing some keys removes exactly those keys. -/
@[simp] theorem get?_eraseAll {ks : List Bytes} :
    (t.eraseAll ks).get? a = if a ∈ ks then none else t.get? a := by
  induction ks generalizing t with
  | nil => simp [eraseAll]
  | cons k ks ih =>
    simp only [eraseAll, List.foldl_cons] at ih ⊢
    rw [ih]
    by_cases hk : a = k <;> simp [hk]

/-- The number a counter under `key` holds: 0 when it is missing, and an error when its record
is not eight bytes. -/
def counterAt (t : Table) (key : Bytes) : Except StoreError UInt64 :=
  match t.get? key with
  | none => .ok 0
  | some raw => Keys.readSequence raw

end Table

namespace Txn

variable {α β : Type} {t t₁ t' : Table} {a : α} {b : β}

@[simp] theorem pure_run : (pure a : Txn α) t = .ok (a, t) := rfl
@[simp] theorem get?_run {k : Bytes} : Txn.get? k t = .ok (t.get? k, t) := rfl
@[simp] theorem set_run {k v : Bytes} : Txn.set k v t = .ok ((), t.insert k v) := rfl
@[simp] theorem delete_run {k : Bytes} : Txn.delete k t = .ok (t.contains k, t.erase k) := rfl
@[simp] theorem scan_run {p : Bytes} : Txn.scan p t = .ok (t.scan p, t) := rfl
@[simp] theorem deletePrefix_run {p : Bytes} : Txn.deletePrefix p t = .ok ((), t.erasePrefix p) :=
  rfl
@[simp] theorem fail_run {e : StoreError} : (Txn.fail e : Txn α) t = .error e := rfl
@[simp] theorem ofExcept_ok : Txn.ofExcept (.ok a) t = .ok (a, t) := rfl
@[simp] theorem ofExcept_error {e : StoreError} : (Txn.ofExcept (.error e) : Txn α) t = .error e :=
  rfl

/-- Lifting a result into a transaction succeeds on a result, and leaves the table alone. -/
@[simp] theorem ofExcept_eq_ok {x : Except StoreError α} :
    Txn.ofExcept x t = .ok (a, t') ↔ x = .ok a ∧ t' = t := by
  cases x <;> simp [eq_comm]

/-- Deleting keys one after another removes exactly those keys. -/
theorem forIn_delete (ks : List Bytes) (f : Bytes → Bytes) (t : Table) :
    (forIn ks PUnit.unit fun r _ => do
        let _ ← Txn.delete (f r)
        pure (ForInStep.yield PUnit.unit) : Txn PUnit) t = .ok ((), t.eraseAll (ks.map f)) := by
  induction ks generalizing t with
  | nil => rfl
  | cons k ks ih =>
    rw [List.forIn_cons, bind_run_of_ok (bind_run_of_ok delete_run)]
    exact ih _

/-- Taking a number from a counter: the counter's number, unless it is the largest word, with
the counter raised by one. -/
theorem nextSequence_eq (key : Bytes) (t : Table) :
    nextSequence key t = (t.counterAt key).bind fun c =>
      if c = UInt64.ofNat (Nat.pow 2 64 - 1) then .error .counterExhausted
      else .ok (c, t.insert key (Keys.sequence (c + 1))) := by
  unfold nextSequence Table.counterAt
  rw [bind_run_of_ok get?_run]
  -- the counter's number, then the check against the largest word
  have hstep : ∀ c : UInt64, (if c = UInt64.ofNat (Nat.pow 2 64 - 1) then
        (fail .counterExhausted : Txn UInt64)
      else do set key (Keys.sequence (c + 1)); pure c) t =
      if c = UInt64.ofNat (Nat.pow 2 64 - 1) then .error .counterExhausted
      else .ok (c, t.insert key (Keys.sequence (c + 1))) := by
    intro c
    by_cases hc : c = UInt64.ofNat (Nat.pow 2 64 - 1)
    · simp [hc]
    · simp only [hc, if_false]
      exact bind_run_of_ok set_run
  cases t.get? key with
  | none => exact (bind_run_of_ok pure_run).trans (hstep 0)
  | some raw =>
    dsimp only
    cases Keys.readSequence raw with
    | error e => exact bind_run_of_error rfl
    | ok c => exact (bind_run_of_ok rfl).trans (hstep c)

/-- Taking a number from a counter succeeds when the counter reads below the largest word. -/
theorem nextSequence_eq_ok {key : Bytes} {c : UInt64} :
    nextSequence key t = .ok (c, t') ↔
      t.counterAt key = .ok c ∧ c.toNat + 1 < Nat.pow 2 64 ∧
        t' = t.insert key (Keys.sequence (c + 1)) := by
  have hmax : c = UInt64.ofNat (Nat.pow 2 64 - 1) ↔ ¬ c.toNat + 1 < Nat.pow 2 64 := by
    have hv : (UInt64.ofNat (Nat.pow 2 64 - 1)).toNat = Nat.pow 2 64 - 1 := rfl
    rw [← UInt64.toNat_inj, hv]
    have := c.toNat_lt
    simp only [Nat.pow_eq] at this ⊢
    omega
  rw [nextSequence_eq]
  cases t.counterAt key with
  | error e => simp [Except.bind]
  | ok c₀ =>
    by_cases h : c₀ = UInt64.ofNat (Nat.pow 2 64 - 1)
    · simp only [Except.bind, h, if_true, reduceCtorEq, Except.ok.injEq, false_iff, not_and]
      intro hc
      subst hc
      exact (hmax.1 rfl).elim
    · simp only [Except.bind, h, if_false, Except.ok.injEq, Prod.mk.injEq]
      constructor
      · rintro ⟨rfl, rfl⟩
        exact ⟨rfl, Decidable.not_not.1 (mt hmax.2 h), rfl⟩
      · rintro ⟨rfl, _, rfl⟩
        exact ⟨rfl, rfl⟩

end Txn

end ArchiveStore
