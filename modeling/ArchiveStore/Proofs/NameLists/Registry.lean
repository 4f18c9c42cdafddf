import ArchiveStore.Proofs.NameLists.Lists
/-!
# Registrations of an open store and its stored lists

An open store registers namespaces and user buckets in memory, each with a handle number, and
adds their names to the stored lists unless it is read-only. One inversion lemma per
operation says what it can do (`Database.createNamespace_eq_ok`,
`Database.createBucket_eq_ok`, `Database.deleteNamespace_eq_ok`,
`Database.registerStored_fresh`); the rest is derived from them.

`Database.Agrees c db` is what an open store keeps along a run that created the names `c`:
its table stores `c`'s lists, every registered name can be keyed, and, when the store is open
for writing, every registered name is one that was created (and so is stored). Every operation
of the store keeps it, moving `c` along with what it created (`Database.Agrees.createNamespace`
and its siblings). `Database.KeepsHandles` says a registration, once made, keeps its handle.

Two consequences are the store's promises about registration:

* asking again for a registered namespace or user bucket gives its handle back and changes
  nothing (`Database.createNamespace_of_registered`, `Database.createBucket_of_registered`);
* loading a namespace's stored bucket names registers exactly those not registered yet, in the
  order stored, and says how many (`Database.loadBuckets_eq`); a second load finds none
  (`Database.loadBuckets_again`).
-/

namespace ArchiveStore

namespace Database

variable {db db' : Database}

/-! ## Registrations by name -/

/-- The registrations after one is replaced: the namespace's name now finds the new one, if it
found one before; every other name finds what it found. -/
theorem space?_setSpace {sp : Space} {name : Bytes} :
    (db.setSpace sp).space? name =
      if name = sp.name then (db.space? name).map fun _ => sp else db.space? name := by
  unfold setSpace space?
  induction db.spaces with
  | nil => split <;> rfl
  | cons e es ih =>
    by_cases he : e.name = sp.name
    · by_cases hn : name = sp.name
      · simp [he, hn]
      · simpa [List.find?_cons, he, hn, Ne.symm hn] using ih
    · by_cases hn : e.name = name
      · subst hn
        simp [he]
      · simpa [List.find?_cons, he, hn] using ih

/-- A registration appended under a new name is found by that name only. -/
theorem space?_append {sp : Space} (hnone : db.space? sp.name = none)
    (hsp : db'.spaces = db.spaces ++ [sp]) {name : Bytes} :
    db'.space? name = if name = sp.name then some sp else db.space? name := by
  unfold space? at hnone ⊢
  rw [hsp, List.find?_append]
  by_cases hn : name = sp.name
  · subst hn
    simp [hnone]
  · have hne : (sp.name == name) = false := by simpa using Ne.symm hn
    cases db.spaces.find? (·.name == name) <;> simp [hne, hn]

/-- A registration after one is replaced is the new one, or an old one under another name. -/
theorem mem_setSpace {sp sp' : Space} (h : sp' ∈ (db.setSpace sp).spaces) :
    sp' = sp ∨ sp' ∈ db.spaces ∧ sp'.name ≠ sp.name := by
  simp only [setSpace, List.mem_map] at h
  obtain ⟨e, he, rfl⟩ := h
  by_cases hn : e.name = sp.name
  · exact .inl (by simp [hn])
  · exact .inr ⟨by simpa [hn] using he, by simp [hn]⟩

/-- The registration a namespace operation requires is the one its name finds. -/
theorem requireSpace_eq_ok_iff {name : Bytes} {sp : Space} :
    db.requireSpace name = .ok sp ↔ db.space? name = some sp := by
  unfold requireSpace
  cases db.space? name <;> simp

/-! ## What each registration does -/

/-- Registering a namespace checks the name; a registered name gets its handle back and nothing
changes; a new one is registered with the next handle number, after its name is added to the
stored list unless the store is read-only. -/
theorem createNamespace_eq_ok {name : Bytes} {hd : Nat}
    (hc : db.createNamespace name = .ok (hd, db')) :
    Keys.ValidName name ∧
      ((∃ sp, db.space? name = some sp ∧ hd = sp.handle ∧ db' = db) ∨
        (db.space? name = none ∧ hd = db.nextHandle ∧ ∃ t,
          (db.readOnly = true ∧ t = db.table ∨ db.readOnly = false ∧
            ∃ added, NameList.addIn Keys.namespaceList name db.table = .ok (added, t)) ∧
          db' = { db with table := t, spaces := db.spaces ++ [Space.mk name db.nextHandle []]
                          nextHandle := db.nextHandle + 1 })) := by
  unfold createNamespace at hc
  obtain ⟨_, hv, hc⟩ := Except.bind_eq_ok.1 hc
  refine ⟨Keys.validateName_eq_ok.1 hv, ?_⟩
  split at hc
  next sp hsp =>
    obtain ⟨rfl, rfl⟩ := Prod.mk.inj (Except.ok.inj hc)
    exact .inl ⟨sp, hsp, rfl, rfl⟩
  next hnone =>
    refine .inr ⟨hnone, ?_⟩
    dsimp only at hc
    split at hc
    next hro =>
      obtain ⟨rfl, rfl⟩ := Prod.mk.inj (Except.ok.inj hc)
      exact ⟨rfl, db.table, .inl ⟨hro, rfl⟩, rfl⟩
    next hro =>
      obtain ⟨⟨added, db₁⟩, hu, hc⟩ := Except.bind_eq_ok.1 hc
      obtain ⟨-, t, ht, rfl⟩ := update_eq_ok.1 hu
      obtain ⟨rfl, rfl⟩ := Prod.mk.inj (Except.ok.inj hc)
      exact ⟨rfl, t, .inr ⟨by simpa using hro, added, ht⟩, rfl⟩

/-- Registering a user bucket checks the name and needs its namespace registered; a registered
bucket gets its handle back and nothing changes; a new one is registered with the next handle
number, after its name is added to the namespace's stored list unless the store is
read-only. -/
theorem createBucket_eq_ok {space name : Bytes} {hd : Nat}
    (hc : db.createBucket space name = .ok (hd, db')) :
    Keys.ValidName name ∧ ∃ sp, db.space? space = some sp ∧
      ((sp.buckets.lookup name = some hd ∧ db' = db) ∨
        (sp.buckets.lookup name = none ∧ hd = db.nextHandle ∧ ∃ t,
          (db.readOnly = true ∧ t = db.table ∨ db.readOnly = false ∧
            ∃ added, NameList.addIn (Keys.bucketList (Space.keyPrefix space)) name db.table =
              .ok (added, t)) ∧
          db' = { ({ db with table := t } : Database).setSpace
              { sp with buckets := sp.buckets ++ [(name, db.nextHandle)] } with
            nextHandle := db.nextHandle + 1 })) := by
  unfold createBucket at hc
  obtain ⟨_, hv, hc⟩ := Except.bind_eq_ok.1 hc
  obtain ⟨sp, hsp, hc⟩ := Except.bind_eq_ok.1 hc
  refine ⟨Keys.validateName_eq_ok.1 hv, sp, requireSpace_eq_ok_iff.1 hsp, ?_⟩
  split at hc
  next h hlook =>
    obtain ⟨rfl, rfl⟩ := Prod.mk.inj (Except.ok.inj hc)
    exact .inl ⟨hlook, rfl⟩
  next hlook =>
    refine .inr ⟨hlook, ?_⟩
    dsimp only at hc
    split at hc
    next hro =>
      obtain ⟨rfl, rfl⟩ := Prod.mk.inj (Except.ok.inj hc)
      exact ⟨rfl, db.table, .inl ⟨hro, rfl⟩, rfl⟩
    next hro =>
      obtain ⟨⟨added, db₁⟩, hu, hc⟩ := Except.bind_eq_ok.1 hc
      obtain ⟨-, t, ht, rfl⟩ := update_eq_ok.1 hu
      obtain ⟨rfl, rfl⟩ := Prod.mk.inj (Except.ok.inj hc)
      exact ⟨rfl, t, .inr ⟨by simpa using hro, added, ht⟩, rfl⟩

/-- Emptying a namespace needs it registered and the store open for writing; it removes every
key under the namespace's prefix and forgets its user buckets. -/
theorem deleteNamespace_eq_ok {name : Bytes} (hd : db.deleteNamespace name = .ok db') :
    ∃ sp, db.space? name = some sp ∧ db.readOnly = false ∧
      db' = ({ db with table := db.table.erasePrefix (Space.keyPrefix name) } : Database).setSpace
        { sp with buckets := [] } := by
  unfold deleteNamespace at hd
  split at hd
  · cases hd
  next sp hsp =>
    obtain ⟨⟨u, db₁⟩, hu, hret⟩ := Except.bind_eq_ok.1 hd
    obtain ⟨hro, t, ht, rfl⟩ := update_eq_ok.1 hu
    rw [Txn.deletePrefix_run, Except.ok.injEq, Prod.mk.injEq] at ht
    obtain ⟨-, rfl⟩ := ht
    exact ⟨sp, hsp, hro, (Except.ok.inj hret).symm⟩

/-- Registering stored bucket names keeps the namespace's name and handle, and registers only
names of the list. -/
theorem registerStored_mem {s : Space} (next added : Nat) (names : List Bytes) :
    (registerStored s next added names).1.name = s.name ∧
      (registerStored s next added names).1.handle = s.handle ∧
      ∀ p ∈ (registerStored s next added names).1.buckets, p ∈ s.buckets ∨ p.1 ∈ names := by
  induction names generalizing s next added with
  | nil => exact ⟨rfl, rfl, fun p hp => .inl hp⟩
  | cons name rest ih =>
    unfold registerStored
    split
    · obtain ⟨hn, hh, hp⟩ := ih (s := s) next added
      exact ⟨hn, hh, fun p hmem => (hp p hmem).imp id (List.mem_cons_of_mem name)⟩
    split
    · exact ⟨rfl, rfl, fun p hp => .inl hp⟩
    · obtain ⟨hn, hh, hp⟩ := ih (s := { s with buckets := s.buckets ++ [(name, next)] })
        (next + 1) (added + 1)
      refine ⟨hn, hh, fun p hmem => ?_⟩
      rcases hp p hmem with hp | hp
      · rcases List.mem_append.1 hp with hp | hp
        · exact .inl hp
        · rw [List.mem_singleton.1 hp]
          exact .inr List.mem_cons_self
      · exact .inr (List.mem_cons_of_mem name hp)

/-- Registering stored bucket names whose lengths fit registers, with handle numbers from
`next` on, exactly the names not registered yet, each once, in the order of the list; the
count is how many. -/
theorem registerStored_fresh {s : Space} (next added : Nat) {names : List Bytes}
    (hfit : ∀ b ∈ names, b.length ≤ Keys.maxNameLength) :
    ∃ new : List (Bytes × Nat),
      new.map Prod.fst = (names.filter fun b => (s.buckets.lookup b).isNone).eraseDups ∧
      registerStored s next added names =
        ({ s with buckets := s.buckets ++ new }, next + new.length, .ok (added + new.length)) := by
  induction names generalizing s next added with
  | nil => exact ⟨[], rfl, by simp [registerStored]⟩
  | cons b rest ih =>
    have hrest : ∀ x ∈ rest, x.length ≤ Keys.maxNameLength :=
      fun x hx => hfit x (List.mem_cons_of_mem b hx)
    unfold registerStored
    by_cases hreg : (s.buckets.lookup b).isSome
    · -- a registered name is passed over
      rw [if_pos hreg]
      obtain ⟨new, hnew, heq⟩ := ih (s := s) next added hrest
      refine ⟨new, ?_, heq⟩
      rw [hnew, List.filter_cons_of_neg (by revert hreg; cases s.buckets.lookup b <;> simp)]
    · have hlen : ¬ b.length > Keys.maxNameLength := by
        have := hfit b List.mem_cons_self
        omega
      rw [if_neg hreg, if_neg hlen]
      let s₁ : Space := { s with buckets := s.buckets ++ [(b, next)] }
      obtain ⟨new, hnew, heq⟩ := ih (s := s₁) (next + 1) (added + 1) hrest
      -- a name is unregistered after `b` is registered when it was before and is not `b`
      have hnone : ∀ x, (s₁.buckets.lookup x).isNone =
          ((!x == b) && (s.buckets.lookup x).isNone) := by
        intro x
        simp only [s₁, List.lookup_append]
        by_cases hxb : x = b
        · subst hxb
          cases hx : s.buckets.lookup x <;> simp
        · have hbeq : (x == b) = false := beq_false_of_ne hxb
          cases hx : s.buckets.lookup x <;> simp [hbeq, hxb]
      have hfilter : (rest.filter fun x => (s₁.buckets.lookup x).isNone) =
          ((rest.filter fun x => (s.buckets.lookup x).isNone).filter fun x => !x == b) := by
        rw [List.filter_filter]
        exact List.filter_congr fun x _ => hnone x
      refine ⟨(b, next) :: new, ?_, ?_⟩
      · rw [List.map_cons, hnew, hfilter,
          List.filter_cons_of_pos (by revert hreg; cases s.buckets.lookup b <;> simp),
          List.eraseDups_cons]
      · have hnext : next + 1 + new.length = next + (new.length + 1) := by omega
        have hadded : added + 1 + new.length = added + (new.length + 1) := by omega
        rw [heq, hnext, hadded]
        simp only [s₁, List.append_assoc, List.singleton_append, List.length_cons]

/-! ## Handles -/

/-- Every registration keeps its handle. -/
def KeepsHandles (db db' : Database) : Prop :=
  ∀ name sp, db.space? name = some sp → ∃ sp', db'.space? name = some sp' ∧ sp'.handle = sp.handle

theorem KeepsHandles.refl (db : Database) : db.KeepsHandles db :=
  fun _ sp hsp => ⟨sp, hsp, rfl⟩

theorem KeepsHandles.of_spaces (h : db'.spaces = db.spaces) : db.KeepsHandles db' :=
  fun name sp hsp => ⟨sp, by rw [space?, h]; exact hsp, rfl⟩

/-- Replacing a registration by one with the same name and handle keeps every handle. -/
theorem KeepsHandles.setSpace {sp sp' : Space} (hsp : db.space? sp'.name = some sp)
    (hh : sp'.handle = sp.handle) : db.KeepsHandles (db.setSpace sp') := by
  intro name s hs
  rw [space?_setSpace]
  split
  next hn =>
    subst hn
    rw [hsp] at hs
    cases hs
    exact ⟨sp', by rw [hsp]; rfl, hh⟩
  · exact ⟨s, hs, rfl⟩

theorem KeepsHandles.createNamespace {name : Bytes} {hd : Nat}
    (hc : db.createNamespace name = .ok (hd, db')) : db.KeepsHandles db' := by
  rcases (createNamespace_eq_ok hc).2 with ⟨-, -, -, rfl⟩ | ⟨hnone, -, t, -, rfl⟩
  · exact KeepsHandles.refl _
  · intro n sp hsp
    refine ⟨sp, ?_, rfl⟩
    rw [@space?_append db _ ⟨name, db.nextHandle, []⟩ hnone rfl]
    have hn : n ≠ name := fun heq => by rw [heq, hnone] at hsp; cases hsp
    rw [if_neg hn]
    exact hsp

/-- After a namespace is registered, its name finds a registration with the handle given. -/
theorem space?_createNamespace {name : Bytes} {hd : Nat}
    (hc : db.createNamespace name = .ok (hd, db')) :
    ∃ sp, db'.space? name = some sp ∧ sp.handle = hd := by
  rcases (createNamespace_eq_ok hc).2 with ⟨sp, hsp, rfl, rfl⟩ | ⟨hnone, rfl, t, -, rfl⟩
  · exact ⟨sp, hsp, rfl⟩
  · refine ⟨⟨name, db.nextHandle, []⟩, ?_, rfl⟩
    rw [@space?_append db _ ⟨name, db.nextHandle, []⟩ hnone rfl, if_pos rfl]

theorem KeepsHandles.createBucket {space name : Bytes} {hd : Nat}
    (hc : db.createBucket space name = .ok (hd, db')) : db.KeepsHandles db' := by
  obtain ⟨-, sp, hsp, hcases⟩ := createBucket_eq_ok hc
  have hname : sp.name = space := (space?_eq_some hsp).2
  rcases hcases with ⟨-, rfl⟩ | ⟨-, -, t, -, rfl⟩
  · exact KeepsHandles.refl _
  · have hsp' : db.space? sp.name = some sp := by rw [hname]; exact hsp
    have h : KeepsHandles { db with table := t } (({ db with table := t } : Database).setSpace
        { sp with buckets := sp.buckets ++ [(name, db.nextHandle)] }) :=
      KeepsHandles.setSpace hsp' rfl
    intro n s hs
    exact h n s hs

theorem KeepsHandles.deleteNamespace {name : Bytes} (hd : db.deleteNamespace name = .ok db') :
    db.KeepsHandles db' := by
  obtain ⟨sp, hsp, -, rfl⟩ := deleteNamespace_eq_ok hd
  have hname : sp.name = name := (space?_eq_some hsp).2
  have hsp' : db.space? sp.name = some sp := by rw [hname]; exact hsp
  have h : KeepsHandles { db with table := db.table.erasePrefix (Space.keyPrefix name) }
      (({ db with table := db.table.erasePrefix (Space.keyPrefix name) } : Database).setSpace
        { sp with buckets := [] }) :=
    KeepsHandles.setSpace hsp' rfl
  intro n s hs
  exact h n s hs

theorem KeepsHandles.loadBuckets (space : Bytes) : db.KeepsHandles (db.loadBuckets space).2 := by
  unfold Database.loadBuckets
  split
  · exact KeepsHandles.refl _
  · exact KeepsHandles.refl _
  next sp stored hsp _ =>
    obtain ⟨hn, hh, -⟩ := registerStored_mem (s := sp) db.nextHandle 0 stored
    have hs := requireSpace_eq_ok_iff.1 hsp
    have h : db.KeepsHandles (db.setSpace (registerStored sp db.nextHandle 0 stored).1) :=
      KeepsHandles.setSpace (by rw [hn, (space?_eq_some hs).2]; exact hs) hh
    intro n s hs'
    exact h n s hs'

/-! ## Asking again for a registration -/

/-- A registered namespace asked for again gives its handle back, and nothing changes. -/
theorem createNamespace_of_registered {name : Bytes} {sp : Space} (hsp : db.space? name = some sp)
    (hv : Keys.ValidName name) : db.createNamespace name = .ok (sp.handle, db) := by
  unfold createNamespace
  rw [(@Keys.validateName_eq_ok "namespace" name).2 hv]
  simp only [hsp]
  rfl

/-- A registered user bucket asked for again gives its handle back, and nothing changes. -/
theorem createBucket_of_registered {space name : Bytes} {sp : Space} {hd : Nat}
    (hsp : db.space? space = some sp) (hb : sp.buckets.lookup name = some hd)
    (hv : Keys.ValidName name) : db.createBucket space name = .ok (hd, db) := by
  unfold createBucket
  refine Except.bind_eq_ok.2 ⟨(), (@Keys.validateName_eq_ok "bucket" name).2 hv, ?_⟩
  refine Except.bind_eq_ok.2 ⟨sp, requireSpace_eq_ok_iff.2 hsp, ?_⟩
  rw [hb]
  rfl

/-! ## Loading stored bucket names -/

section Load

variable {space : Bytes} {sp : Space} {stored : List Bytes}
  (hsp : db.space? space = some sp) (hstored : db.storedBuckets space = .ok stored)
  (hfit : ∀ b ∈ stored, b.length ≤ Keys.maxNameLength)
include hsp hstored hfit

/-- Loading registers, with the next handle numbers, exactly the stored names not registered
yet, each once and in the stored order, and answers how many. -/
theorem loadBuckets_eq :
    ∃ new : List (Bytes × Nat),
      new.map Prod.fst = (stored.filter fun b => (sp.buckets.lookup b).isNone).eraseDups ∧
      db.loadBuckets space = (.ok new.length,
        { db.setSpace { sp with buckets := sp.buckets ++ new } with
          nextHandle := db.nextHandle + new.length }) := by
  obtain ⟨new, hnew, hreg⟩ := registerStored_fresh (s := sp) db.nextHandle 0 hfit
  refine ⟨new, hnew, ?_⟩
  unfold loadBuckets
  rw [requireSpace_eq_ok_iff.2 hsp, hstored]
  dsimp only
  rw [hreg, Nat.zero_add]

/-- Right after a load, every stored name is registered, so a second load registers none. -/
theorem loadBuckets_again : ((db.loadBuckets space).2.loadBuckets space).1 = .ok 0 := by
  obtain ⟨new, hnew, heq⟩ := loadBuckets_eq hsp hstored hfit
  have hname : sp.name = space := (space?_eq_some hsp).2
  let sp₁ : Space := { sp with buckets := sp.buckets ++ new }
  have hsp₁ : ({ db.setSpace sp₁ with nextHandle := db.nextHandle + new.length } : Database).space?
      space = some sp₁ := by
    show (db.setSpace sp₁).space? space = some sp₁
    rw [space?_setSpace, if_pos hname.symm, hsp]
    rfl
  -- every stored name is registered now: before the load, or by it
  have hnone : stored.filter (fun b => (sp₁.buckets.lookup b).isNone) = [] := by
    refine List.filter_eq_nil_iff.2 fun b hb => ?_
    simp only [sp₁, List.lookup_append, Option.isNone_iff_eq_none, Option.or_eq_none_iff,
      not_and]
    intro hold
    have hmem : b ∈ new.map Prod.fst := by
      rw [hnew, List.mem_eraseDups, List.mem_filter]
      exact ⟨hb, by simp [hold]⟩
    obtain ⟨p, hp, rfl⟩ := List.mem_map.1 hmem
    intro hlook
    have := List.lookup_eq_none_iff.1 hlook p hp
    simp at this
  obtain ⟨new₁, hnew₁, heq₁⟩ := loadBuckets_eq hsp₁ hstored hfit
  rw [heq, heq₁]
  rw [hnone] at hnew₁
  have : new₁ = [] := List.map_eq_nil_iff.1 hnew₁
  rw [this]
  rfl

end Load

/-! ## Agreement with the names created -/

/-- An open store agrees with the names created `c`: its table stores `c`'s lists, every name
it registered can be keyed, and, open for writing, every name it registered was created (and
so is stored). -/
structure Agrees (c : Creations) (db : Database) : Prop where
  lists : db.table.Lists c
  spaces : ∀ sp ∈ db.spaces, Keys.ValidName sp.name
  buckets : ∀ sp ∈ db.spaces, ∀ p ∈ sp.buckets, Keys.ValidName p.1
  stored : db.readOnly = false →
    ∀ sp ∈ db.spaces, sp.name ∈ c.spaces ∧ ∀ p ∈ sp.buckets, p.1 ∈ c.buckets sp.name

end Database

namespace Table.Lists

variable {t : Table} {c : Creations}

/-- A name created again changes no stored list. -/
theorem addSpace_of_mem (h : t.Lists c) {name : Bytes} (hmem : name ∈ c.spaces) :
    t.Lists (c.addSpace name) := by
  refine ⟨?_, h.buckets⟩
  rw [Creations.addSpace, eraseDups_append_singleton, if_pos hmem]
  exact h.spaces

theorem addBucket_of_mem (h : t.Lists c) {space name : Bytes} (hmem : name ∈ c.buckets space) :
    t.Lists (c.addBucket space name) := by
  refine ⟨h.spaces, fun n hn => ?_⟩
  by_cases hns : n = space
  · subst hns
    simp only [Creations.addBucket, if_true]
    rw [eraseDups_append_singleton, if_pos hmem]
    exact h.buckets n hn
  · simpa [Creations.addBucket, hns] using h.buckets n hn

end Table.Lists

namespace Database.Agrees

variable {db db' : Database} {c : Creations} {N : Nat}

/-- A store that is opened agrees with what its table stores. -/
theorem opened {t : Table} (ht : t.Lists c) (ro : Bool) :
    ({ table := t, readOnly := ro } : Database).Agrees c :=
  ⟨ht, fun _ h => (List.not_mem_nil h).elim, fun _ h => (List.not_mem_nil h).elim,
    fun _ _ h => (List.not_mem_nil h).elim⟩

/-- A write that keeps the name lists and the registrations keeps the agreement. -/
theorem of_keepsLists (h : db.Agrees c) (hk : db.KeepsLists db') : db'.Agrees c where
  lists := h.lists.congr hk.lists
  spaces := hk.spaces ▸ h.spaces
  buckets := hk.spaces ▸ h.buckets
  stored hro := hk.spaces ▸ h.stored (hk.readOnly ▸ hro)

/-- A registered namespace has a name that can be keyed. -/
theorem valid_of_space? (h : db.Agrees c) {name : Bytes} {sp : Space}
    (hsp : db.space? name = some sp) : Keys.ValidName name := by
  obtain ⟨hmem, rfl⟩ := space?_eq_some hsp
  exact h.spaces sp hmem

/-- A registration replaced by one of the same name, whose buckets can be keyed and were
created, keeps the agreement of the registrations. -/
theorem setSpace (h : db.Agrees c) {sp sp' : Space} (hsp : db.space? sp'.name = some sp)
    (hb : ∀ p ∈ sp'.buckets, Keys.ValidName p.1)
    (hstored : db.readOnly = false → ∀ p ∈ sp'.buckets, p.1 ∈ c.buckets sp'.name) :
    (db.setSpace sp').Agrees c := by
  have hmem := (space?_eq_some hsp).1
  have hname : sp.name = sp'.name := (space?_eq_some hsp).2
  refine ⟨h.lists, fun s hs => ?_, fun s hs => ?_, fun hro s hs => ?_⟩
  · rcases mem_setSpace hs with rfl | ⟨hs, -⟩
    · exact hname ▸ h.spaces sp hmem
    · exact h.spaces s hs
  · rcases mem_setSpace hs with rfl | ⟨hs, -⟩
    · exact hb
    · exact h.buckets s hs
  · rcases mem_setSpace hs with rfl | ⟨hs, -⟩
    · exact ⟨hname ▸ (h.stored hro sp hmem).1, hstored hro⟩
    · exact h.stored hro s hs

section Creations

variable (hc : c.Bounded N) (hN : N + 1 < Nat.pow 256 8)
include hc hN

/-- Registering a namespace on a store open for writing records its creation; on a read-only
store nothing is recorded. -/
theorem createNamespace (h : db.Agrees c) {name : Bytes} {hd : Nat}
    (hcr : db.createNamespace name = .ok (hd, db')) :
    db'.readOnly = db.readOnly ∧
      db'.Agrees (if db.readOnly then c else c.addSpace name) := by
  obtain ⟨hv, hcases⟩ := createNamespace_eq_ok hcr
  rcases hcases with ⟨sp, hsp, -, rfl⟩ | ⟨hnone, -, t, ht, rfl⟩
  · refine ⟨rfl, ?_⟩
    split
    · exact h
    next hro =>
      -- a registered name is stored already
      have hmem : name ∈ c.spaces := by
        obtain ⟨hmem, hname⟩ := space?_eq_some hsp
        exact hname ▸ (h.stored (by simpa using hro) sp hmem).1
      exact ⟨h.lists.addSpace_of_mem hmem, h.spaces, h.buckets,
        fun hro' s hs => ⟨List.mem_append_left _ (h.stored hro' s hs).1,
          (h.stored hro' s hs).2⟩⟩
  · refine ⟨rfl, ?_⟩
    -- the new registration, in a table with the name maybe added
    have hreg : ∀ c' : Creations, t.Lists c' →
        (db.readOnly = false → name ∈ c'.spaces ∧ ∀ s ∈ db.spaces,
          s.name ∈ c'.spaces ∧ ∀ p ∈ s.buckets, p.1 ∈ c'.buckets s.name) →
        ({ db with table := t
                   spaces := db.spaces ++ [Space.mk name db.nextHandle []]
                   nextHandle := db.nextHandle + 1 } : Database).Agrees c' := by
      intro c' ht' hst
      refine ⟨ht', fun s hs => ?_, fun s hs => ?_, fun hro s hs => ?_⟩
      · rcases List.mem_append.1 hs with hs | hs
        · exact h.spaces s hs
        · rw [List.mem_singleton.1 hs]
          exact hv
      · rcases List.mem_append.1 hs with hs | hs
        · exact h.buckets s hs
        · rw [List.mem_singleton.1 hs]
          intro p hp
          cases hp
      · rcases List.mem_append.1 hs with hs | hs
        · exact (hst hro).2 s hs
        · rw [List.mem_singleton.1 hs]
          exact ⟨(hst hro).1, fun p hp => by cases hp⟩
    rcases ht with ⟨hro, rfl⟩ | ⟨hro, added, hadd⟩
    · rw [if_pos hro]
      exact hreg c h.lists fun hf => absurd (hro.symm.trans hf) (by decide)
    · rw [if_neg (by simp [hro])]
      refine hreg _ (h.lists.addIn_namespaceList hc hN hv hadd) fun _ => ?_
      refine ⟨List.mem_append_right _ List.mem_cons_self, fun s hs => ?_⟩
      exact ⟨List.mem_append_left _ (h.stored hro s hs).1, (h.stored hro s hs).2⟩

/-- Registering a user bucket on a store open for writing records its creation; on a read-only
store nothing is recorded. -/
theorem createBucket (h : db.Agrees c) {space name : Bytes} {hd : Nat}
    (hcr : db.createBucket space name = .ok (hd, db')) :
    db'.readOnly = db.readOnly ∧
      db'.Agrees (if db.readOnly then c else c.addBucket space name) := by
  obtain ⟨hv, sp, hsp, hcases⟩ := createBucket_eq_ok hcr
  obtain ⟨hmem, hname⟩ := space?_eq_some hsp
  have hvs : space.length ≤ Keys.maxNameLength := hname ▸ (h.spaces sp hmem).2
  rcases hcases with ⟨hlook, rfl⟩ | ⟨-, -, t, ht, rfl⟩
  · refine ⟨rfl, ?_⟩
    split
    · exact h
    next hro =>
      -- a registered bucket is stored already
      have hstored : name ∈ c.buckets space := by
        obtain ⟨l₁, l₂, hbuckets, -⟩ := List.lookup_eq_some_iff.1 hlook
        have := (h.stored (by simpa using hro) sp hmem).2 (name, hd) (by rw [hbuckets]; simp)
        exact hname ▸ this
      refine ⟨h.lists.addBucket_of_mem hstored, h.spaces, h.buckets, fun hro' s hs => ?_⟩
      refine ⟨(h.stored hro' s hs).1, fun p hp => ?_⟩
      have hp' := (h.stored hro' s hs).2 p hp
      by_cases hs' : s.name = space
      · have hp'' : p.1 ∈ c.buckets space := hs' ▸ hp'
        simp [Creations.addBucket, hs', hp'']
      · simpa [Creations.addBucket, hs'] using hp'
  · refine ⟨rfl, ?_⟩
    -- the new registration replaces the namespace's, in a table with the name maybe added
    have hnew : ∀ c' : Creations, t.Lists c' →
        (db.readOnly = false → ∀ s ∈ db.spaces, s.name ∈ c'.spaces ∧
          ∀ p ∈ s.buckets, p.1 ∈ c'.buckets s.name) →
        (db.readOnly = false → name ∈ c'.buckets space) →
        ({ ({ db with table := t } : Database).setSpace
            { sp with buckets := sp.buckets ++ [(name, db.nextHandle)] } with
          nextHandle := db.nextHandle + 1 } : Database).Agrees c' := by
      intro c' ht' hst hname'
      have h₁ : ({ db with table := t } : Database).Agrees c' :=
        ⟨ht', h.spaces, h.buckets, hst⟩
      have hsp' : db.space? sp.name = some sp := by rw [hname]; exact hsp
      have h₂ : (({ db with table := t } : Database).setSpace
          { sp with buckets := sp.buckets ++ [(name, db.nextHandle)] }).Agrees c' :=
        h₁.setSpace hsp'
        (fun p hp => by
          rcases List.mem_append.1 hp with hp | hp
          · exact h.buckets sp hmem p hp
          · rw [List.mem_singleton.1 hp]
            exact hv)
        (fun hro p hp => by
          show p.1 ∈ c'.buckets sp.name
          rcases List.mem_append.1 hp with hp | hp
          · exact ((hst hro) sp hmem).2 p hp
          · rw [List.mem_singleton.1 hp, hname]
            exact hname' hro)
      exact ⟨h₂.lists, h₂.spaces, h₂.buckets, h₂.stored⟩
    rcases ht with ⟨hro, rfl⟩ | ⟨hro, added, hadd⟩
    · rw [if_pos hro]
      exact hnew c h.lists h.stored fun hf => absurd (hro.symm.trans hf) (by decide)
    · rw [if_neg (by simp [hro])]
      refine hnew _ (h.lists.addIn_bucketList hc hN hvs hv hadd) (fun hro' s hs => ?_)
        (fun _ => by simp [Creations.addBucket])
      refine ⟨(h.stored hro' s hs).1, fun p hp => ?_⟩
      have hp' := (h.stored hro' s hs).2 p hp
      by_cases hs' : s.name = space
      · have hp'' : p.1 ∈ c.buckets space := hs' ▸ hp'
        simp [Creations.addBucket, hs', hp'']
      · simpa [Creations.addBucket, hs'] using hp'

end Creations

/-- Emptying a namespace records it: its bucket names are gone. -/
theorem deleteNamespace (h : db.Agrees c) {name : Bytes}
    (hd : db.deleteNamespace name = .ok db') :
    db.readOnly = false ∧ db'.readOnly = false ∧ db'.Agrees (c.clearSpace name) := by
  obtain ⟨sp, hsp, hro, rfl⟩ := deleteNamespace_eq_ok hd
  obtain ⟨hmem, hname⟩ := space?_eq_some hsp
  have hvs : name.length ≤ Keys.maxNameLength := hname ▸ (h.spaces sp hmem).2
  refine ⟨hro, hro, h.lists.erasePrefix hvs, fun s hs => ?_, fun s hs => ?_, fun _ s hs => ?_⟩
  · rcases mem_setSpace hs with rfl | ⟨hs, -⟩
    · exact h.spaces sp hmem
    · exact h.spaces s hs
  · rcases mem_setSpace hs with rfl | ⟨hs, -⟩
    · intro p hp
      cases hp
    · exact h.buckets s hs
  · rcases mem_setSpace hs with rfl | ⟨hs, hne⟩
    · exact ⟨(h.stored hro sp hmem).1, fun p hp => by cases hp⟩
    · -- another namespace keeps its bucket names
      have hne' : s.name ≠ name := fun heq => hne (heq.trans hname.symm)
      refine ⟨(h.stored hro s hs).1, fun p hp => ?_⟩
      simpa [Creations.clearSpace, hne'] using (h.stored hro s hs).2 p hp

/-- Loading stored bucket names registers only names that were created. -/
theorem loadBuckets (h : db.Agrees c) (hc : c.Bounded N) (space : Bytes) :
    (db.loadBuckets space).2.Agrees c := by
  unfold Database.loadBuckets
  split
  · exact h
  · exact h
  next sp stored hsp hst =>
    obtain ⟨hn, -, hreg⟩ := registerStored_mem (s := sp) db.nextHandle 0 stored
    have hs := requireSpace_eq_ok_iff.1 hsp
    obtain ⟨hmem, hname⟩ := space?_eq_some hs
    -- the stored names are the names created in the namespace
    have hcreated : ∀ b ∈ stored, b ∈ c.buckets space := by
      intro b hb
      have hlist := h.lists.buckets space (hname ▸ (h.spaces sp hmem).2)
      rw [← storedBuckets, hst, Except.ok.injEq] at hlist
      exact List.mem_eraseDups.1 (hlist ▸ hb)
    have hs' : db.space? (registerStored sp db.nextHandle 0 stored).1.name = some sp := by
      rw [hn, hname]
      exact hs
    have h₁ : (db.setSpace (registerStored sp db.nextHandle 0 stored).1).Agrees c :=
      h.setSpace hs'
      (fun p hp => by
        rcases hreg p hp with hp | hp
        · exact h.buckets sp hmem p hp
        · exact hc.buckets space p.1 (hcreated p.1 hp))
      (fun hro p hp => by
        rw [hn, hname]
        rcases hreg p hp with hp | hp
        · exact hname ▸ (h.stored hro sp hmem).2 p hp
        · exact hcreated p.1 hp)
    exact ⟨h₁.lists, h₁.spaces, h₁.buckets, h₁.stored⟩

end Database.Agrees

end ArchiveStore
