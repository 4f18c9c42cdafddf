import ArchiveStore.StoreFile
/-!
# What paths lead to as a host changes

A path resolves by walking its parts, and the walk reads the host only through `Host.enter`:
whether each location it passes is a directory. So a walk that succeeded still succeeds,
with the same target, on any host that keeps those directories (`Host.locate_of_enter`).
Two kinds of change keep them:

* a host that grows (`Host.Grows`): it keeps every node and gains no file, which is what
  making directories does (`Host.grows_createDirAll`); what a path led to stays
  (`Host.Grows.stat`);
* writing a file, which sets a location the walk never enters, since the walk only enters
  directories and a file is never written over one (`Host.stat_writeFile`).

The lemmas that close the module say which file nodes a host's paths can reach: whatever a
path leads to, or a read gives, is one of the host's nodes.
-/

namespace ArchiveStore

/-- Dropping the entries of one key from a list keyed by names leaves the others' lookups. -/
theorem lookup_filter_ne {κ α : Type} [BEq κ] [LawfulBEq κ] [DecidableEq κ] {xs : List (κ × α)}
    {loc l : κ} : (xs.filter fun e => e.1 != loc).lookup l = if l = loc then none else xs.lookup l := by
  induction xs with
  | nil => simp
  | cons e es ih =>
    obtain ⟨k, v⟩ := e
    by_cases hk : k = loc
    · subst hk
      by_cases hl : l = k
      · simpa [List.filter_cons, hl] using ih
      · simpa [List.filter_cons, List.lookup_cons, beq_false_of_ne hl, hl] using ih
    · by_cases hl : l = k
      · subst hl
        simp [hk]
      · simpa [List.filter_cons, hk, List.lookup_cons, beq_false_of_ne hl] using ih

namespace Host

variable {h h' h'' : Host} {path : String} {tg : Target}

/-! ## Nodes after a set -/

theorem lookup_set {loc l : List String} {n : Node} :
    (h.set loc n).nodes.lookup l = if l = loc then some n else h.nodes.lookup l := by
  unfold set
  rw [List.lookup_append, lookup_filter_ne]
  by_cases hl : l = loc
  · simp [hl]
  · simp [hl, List.lookup_cons, beq_false_of_ne hl]

/-- Setting a node changes what stands at that location only; the root stays a directory. -/
theorem node?_set {loc l : List String} {n : Node} :
    (h.set loc n).node? l =
      if l.isEmpty then some .directory else if l = loc then some n else h.node? l := by
  unfold node?
  split
  · rfl
  · rw [lookup_set]

/-- A node of a host after a set is the one set, or an old node at another location. -/
theorem mem_set {loc l : List String} {n n' : Node} (hm : (l, n') ∈ (h.set loc n).nodes) :
    (l, n') ∈ h.nodes ∧ l ≠ loc ∨ l = loc ∧ n' = n := by
  simp only [set, List.mem_append, List.mem_filter, List.mem_singleton, Prod.mk.injEq,
    bne_iff_ne, ne_eq] at hm
  exact hm

theorem enter_eq_ok {loc : List String} : h.enter loc = .ok () ↔ h.node? loc = some .directory := by
  unfold enter
  split <;> simp_all

/-! ## Walks that keep their directories -/

/-- A walk reads the host only through `enter`: where every location it entered can still be
entered, it leads to the same target. -/
theorem walk_of_enter (he : ∀ l, h.enter l = .ok () → h'.enter l = .ok ())
    {loc : List String} {ps : List String} (hw : h.walk loc ps = .ok tg) :
    h'.walk loc ps = .ok tg := by
  induction ps generalizing loc with
  | nil => exact hw
  | cons p rest ih =>
    unfold walk at hw ⊢
    by_cases hp : p.isEmpty = true
    · -- an empty part moves nowhere
      simp only [hp, if_true] at hw ⊢
      split
      · simpa [*] using hw
      · rename_i hr
        simp only [hr, if_false, Bool.false_eq_true] at hw
        exact ih hw
    · -- a named part enters the current location first
      simp only [hp, if_false, Bool.false_eq_true] at hw ⊢
      cases hen : h.enter loc with
      | error e => rw [hen] at hw; cases hw
      | ok u =>
        rw [hen] at hw
        rw [he loc hen]
        dsimp only at hw ⊢
        split
        · rename_i hr
          simpa [hr] using hw
        · rename_i hr
          simp only [hr, if_false, Bool.false_eq_true] at hw
          exact ih hw

theorem locate_of_enter (he : ∀ l, h.enter l = .ok () → h'.enter l = .ok ())
    (hl : h.locate path = .ok tg) : h'.locate path = .ok tg := by
  unfold locate at hl ⊢
  dsimp only at hl ⊢
  split at hl
  · cases hl
  · rename_i hne
    rw [if_neg hne]
    split at hl
    · rename_i hs
      rw [if_pos hs]
      exact walk_of_enter he hl
    · rename_i hs
      rw [if_neg hs]
      exact walk_of_enter he hl

/-- What a path leads to: a location it was walked to, with a node there. -/
theorem stat_eq_ok {n : Node} (hs : h.stat path = .ok n) :
    ∃ tg, h.locate path = .ok tg ∧ (h.node? tg.loc).isSome := by
  unfold stat at hs
  cases hl : h.locate path with
  | error e => rw [hl] at hs; cases hs
  | ok tg =>
    rw [hl] at hs
    refine ⟨tg, rfl, ?_⟩
    simp only [bind, Except.bind] at hs
    split at hs <;> simp_all

/-- Two hosts where a path leads to the same target, with the same node there, agree on
what the path leads to. -/
theorem stat_congr (hl : h.locate path = .ok tg) (hl' : h'.locate path = .ok tg)
    (hn : h'.node? tg.loc = h.node? tg.loc) : h'.stat path = h.stat path := by
  unfold stat
  rw [hl, hl']
  simp only [bind, Except.bind, hn]

/-! ## Hosts that grow -/

/-- `h'` keeps every node of `h` and holds no file that `h` does not: it differs from `h` by
directories made where nothing stood. -/
structure Grows (h h' : Host) : Prop where
  keeps : ∀ loc n, h.node? loc = some n → h'.node? loc = some n
  files : ∀ loc c, (loc, Node.file c) ∈ h'.nodes → (loc, Node.file c) ∈ h.nodes

theorem Grows.refl (h : Host) : h.Grows h :=
  ⟨fun _ _ hn => hn, fun _ _ hm => hm⟩

theorem Grows.trans (h₁ : h.Grows h') (h₂ : h'.Grows h'') : h.Grows h'' :=
  ⟨fun loc n hn => h₂.keeps loc n (h₁.keeps loc n hn),
    fun loc c hm => h₁.files loc c (h₂.files loc c hm)⟩

theorem Grows.locate (hg : h.Grows h') (hl : h.locate path = .ok tg) :
    h'.locate path = .ok tg :=
  locate_of_enter (fun l he => enter_eq_ok.2 (hg.keeps l _ (enter_eq_ok.1 he))) hl

/-- What a path led to, it still leads to on a host that grew. -/
theorem Grows.stat (hg : h.Grows h') {n : Node} (hs : h.stat path = .ok n) :
    h'.stat path = .ok n := by
  obtain ⟨tg, hl, hn⟩ := stat_eq_ok hs
  obtain ⟨n', hn'⟩ := Option.isSome_iff_exists.1 hn
  rw [stat_congr hl (hg.locate hl) (by rw [hn', hg.keeps _ _ hn']), hs]

/-! ## Writing files and making directories -/

/-- Where a file is written: the path leads to a location that holds no directory, and the
host afterwards has the file set there. -/
theorem writeFile_eq_ok {c : FileContent} (hw : h.writeFile path c = .ok h') :
    ∃ tg, h.locate path = .ok tg ∧ tg.dirOnly = false ∧ h.node? tg.loc ≠ some .directory ∧
      h' = h.set tg.loc (.file c) := by
  unfold writeFile at hw
  cases hl : h.locate path with
  | error e => rw [hl] at hw; cases hw
  | ok tg =>
    rw [hl] at hw
    simp only [bind, Except.bind] at hw
    split at hw
    · cases hw
    all_goals
      rename_i hn
      split at hw
      · cases hw
      · cases hw
        exact ⟨tg, rfl, by simpa using ‹¬tg.dirOnly = true›, by simp [hn], rfl⟩

/-- A file can be written where a path leads to a file. -/
theorem writeFile_of_stat {c₀ : FileContent} (hs : h.stat path = .ok (.file c₀))
    (c : FileContent) : ∃ h', h.writeFile path c = .ok h' := by
  unfold stat at hs
  unfold writeFile
  cases hl : h.locate path with
  | error e => rw [hl] at hs; cases hs
  | ok tg =>
    rw [hl] at hs
    simp only [bind, Except.bind] at hs ⊢
    split at hs
    · cases hs
    · rename_i c' hn
      rw [hn]
      split at hs
      · cases hs
      · rename_i hd
        simp [hd]
    · cases hs

/-- After a file is written, its path leads to it: the location written was never entered on
the way there. -/
theorem stat_writeFile {c : FileContent} (hw : h.writeFile path c = .ok h') :
    h'.stat path = .ok (.file c) := by
  obtain ⟨tg, hl, hd, hnd, rfl⟩ := writeFile_eq_ok hw
  -- every location the walk enters is a directory, so it is not the one written
  have he : ∀ l, h.enter l = .ok () → (h.set tg.loc (.file c)).enter l = .ok () := by
    intro l hen
    have hdir := enter_eq_ok.1 hen
    have hne : l ≠ tg.loc := fun heq => hnd (heq ▸ hdir)
    rw [enter_eq_ok, node?_set, if_neg hne]
    split
    · rfl
    · exact hdir
  have hroot : tg.loc.isEmpty = false := by
    cases hloc : tg.loc with
    | nil => simp [node?, hloc] at hnd
    | cons _ _ => rfl
  unfold stat
  rw [locate_of_enter he hl]
  simp [bind, Except.bind, node?_set, hroot, hd]

/-- Where a directory is made: the path leads to a location where nothing stood. -/
theorem makeDirectory_eq_ok (hm : h.makeDirectory path = .ok h') :
    ∃ tg, h.locate path = .ok tg ∧ tg.loc.isEmpty = false ∧ h.node? tg.loc = none ∧
      h' = h.set tg.loc .directory := by
  unfold makeDirectory at hm
  cases hl : h.locate path with
  | error e => rw [hl] at hm; cases hm
  | ok tg =>
    rw [hl] at hm
    simp only [bind, Except.bind] at hm
    split at hm
    · cases hm
    · rename_i hdot
      split at hm
      · cases hm
      · rename_i hn
        cases hm
        exact ⟨tg, rfl, by simp_all, hn, rfl⟩

/-- Making a directory grows the host. -/
theorem grows_makeDirectory (hm : h.makeDirectory path = .ok h') : h.Grows h' := by
  obtain ⟨tg, -, hroot, hnone, rfl⟩ := makeDirectory_eq_ok hm
  constructor
  · intro l n hn
    rw [node?_set]
    split
    · rename_i hl
      -- the root, which is a directory on every host
      simp [node?, hl] at hn
      rw [hn]
    · rw [if_neg]
      · exact hn
      · rintro rfl
        rw [hnone] at hn
        cases hn
  · intro l c hmem
    rcases mem_set hmem with ⟨hmem, -⟩ | ⟨-, hc⟩
    · exact hmem
    · cases hc

/-- Making directories grows the host, one directory after another. -/
theorem grows_createDirAllFuel {fuel : Nat} (hc : h.createDirAllFuel fuel path = .ok h') :
    h.Grows h' := by
  induction fuel generalizing h h' path with
  | zero =>
    cases hc
    exact Grows.refl h
  | succ fuel ih =>
    unfold Host.createDirAllFuel at hc
    split at hc
    · cases hc
      exact Grows.refl h
    dsimp only at hc
    split at hc
    next h₁ hm =>
      cases hc
      exact grows_makeDirectory hm
    next hm =>
      split at hc
      · cases hc
      split at hc
      · cases hc
      next h₁ hrec =>
        -- the parents first, then the directory itself
        have hup := ih hrec
        split at hc
        next h₂ hm' =>
          cases hc
          exact hup.trans (grows_makeDirectory hm')
        next e hm' =>
          split at hc
          · cases hc
            exact hup
          · cases hc
    next e hm hne =>
      split at hc
      · cases hc
        exact Grows.refl h
      · cases hc

theorem grows_createDirAll (hc : h.createDirAll path = .ok h') : h.Grows h' :=
  grows_createDirAllFuel hc

/-! ## Files a host can reach -/

/-- A file node a host finds is one of its nodes. -/
theorem mem_of_node? {loc : List String} {c : FileContent} (hn : h.node? loc = some (.file c)) :
    (loc, Node.file c) ∈ h.nodes := by
  unfold node? at hn
  split at hn
  · cases hn
  · obtain ⟨l₁, l₂, heq, -⟩ := List.lookup_eq_some_iff.1 hn
    rw [heq]
    simp

/-- A file a path leads to is one of the host's nodes. -/
theorem mem_of_stat {c : FileContent} (hst : h.stat path = .ok (.file c)) :
    ∃ loc, (loc, Node.file c) ∈ h.nodes := by
  unfold stat at hst
  cases hloc : h.locate path with
  | error e => rw [hloc] at hst; cases hst
  | ok tg =>
    rw [hloc] at hst
    simp only [bind, Except.bind] at hst
    split at hst
    · cases hst
    next c' hn =>
      split at hst
      · cases hst
      · cases hst
        exact ⟨tg.loc, mem_of_node? hn⟩
    · cases hst

/-- A file a host reads is one of its nodes. -/
theorem mem_of_readFile {c : FileContent} (hr : h.readFile path = .ok c) :
    ∃ loc, (loc, Node.file c) ∈ h.nodes := by
  unfold readFile at hr
  cases hst : h.stat path with
  | error e => rw [hst] at hr; cases hr
  | ok n =>
    rw [hst] at hr
    cases n with
    | directory => cases hr
    | file c' =>
      cases hr
      exact mem_of_stat hst

end Host

end ArchiveStore
