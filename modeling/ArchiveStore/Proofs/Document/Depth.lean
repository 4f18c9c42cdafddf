import ArchiveStore.Document.Codec
/-!
# How deep a document nests, and the counter that reading keeps

Writing checks a document's depth on a stack of values still to visit, each with the depth of
the list or document holding it (`Document.tooDeepFrom`). What that check finds is said by
`Value.nesting`: a value held at depth `k` reaches below level `maxDepth` exactly when it nests
and `maxDepth < k + nesting` (`Document.tooDeepFrom_eq_any`), so a document is too deep exactly
when one of its values nests more than `maxDepth` levels (`Document.tooDeep_eq_any`).
The property the check is meant to decide is said by levels: a top-level field's value stands
on level 1, and the items of a list and the values of a document stand one level below it.
`Value.Opens v ℓ` says that `v` is or holds a list or document on level `ℓ`, and
`Value.nesting_le_iff` says that a nesting of at most `n` means exactly that no such level lies
below `n`. So writing refuses exactly the documents with a list or document below level
`maxDepth` (`Document.encode_eq_ok_iff`).

Reading counts the open levels on the counter of the reading thread instead. Every step of a
reading either leaves the counter as it found it or is a `Decoder.nested` reading, which raises
it on the way in and lowers it on the way out, whether the reading inside succeeded or failed.
`Decoder.KeepsDepth` is that property of a step; it holds of every reader of documents and
values, so a reading ends with the counter where it began (`Document.decodeOn_depth`).
-/

namespace ArchiveStore

/-! ## Levels -/

namespace Value

/-- `v.Opens ℓ`: taken to stand on level 1, the value `v` is or holds a list or document on
level `ℓ`; the items of a list and the values of a document stand one level below it. -/
inductive Opens : Value → Nat → Prop
  | list (items : List Value) : Opens (.list items) 1
  | document (fields : List (String × Value)) : Opens (.document fields) 1
  | item {items : List Value} {v : Value} {ℓ : Nat} :
      v ∈ items → Opens v ℓ → Opens (.list items) (ℓ + 1)
  | field {fields : List (String × Value)} {k : String} {v : Value} {ℓ : Nat} :
      (k, v) ∈ fields → Opens v ℓ → Opens (.document fields) (ℓ + 1)

theorem le_nestingOfList {items : List Value} {v : Value} (h : v ∈ items) :
    v.nesting ≤ nestingOfList items := by
  induction items with
  | nil => cases h
  | cons w ws ih =>
    rw [nestingOfList]
    rcases List.mem_cons.1 h with rfl | h
    · exact Nat.le_max_left _ _
    · exact Nat.le_trans (ih h) (Nat.le_max_right _ _)

theorem le_nestingOfFields {fields : List (String × Value)} {k : String} {v : Value}
    (h : (k, v) ∈ fields) : v.nesting ≤ nestingOfFields fields := by
  induction fields with
  | nil => cases h
  | cons f fs ih =>
    obtain ⟨k', w⟩ := f
    rw [nestingOfFields]
    rcases List.mem_cons.1 h with h | h
    · cases h
      exact Nat.le_max_left _ _
    · exact Nat.le_trans (ih h) (Nat.le_max_right _ _)

/-- No level a value opens lies below its nesting. -/
theorem Opens.le_nesting {v : Value} {ℓ : Nat} (h : v.Opens ℓ) : ℓ ≤ v.nesting := by
  induction h with
  | list items => simp [nesting]
  | document fields => simp [nesting]
  | item hmem _ ih =>
    have := le_nestingOfList hmem
    rw [nesting]
    omega
  | field hmem _ ih =>
    have := le_nestingOfFields hmem
    rw [nesting]
    omega

mutual
/-- A value that nests at all opens the level of its nesting. -/
theorem opens_nesting : ∀ v : Value, 0 < v.nesting → v.Opens v.nesting
  | .list items, _ => by
    rw [nesting]
    rcases Nat.eq_zero_or_pos (nestingOfList items) with h | h
    · rw [h]
      exact .list items
    · obtain ⟨w, hw, hopen⟩ := opens_nestingOfList items h
      exact .item hw hopen
  | .document fields, _ => by
    rw [nesting]
    rcases Nat.eq_zero_or_pos (nestingOfFields fields) with h | h
    · rw [h]
      exact .document fields
    · obtain ⟨k, w, hw, hopen⟩ := opens_nestingOfFields fields h
      exact .field hw hopen
  | .null, h | .bool _, h | .int _, h | .float _, h | .text _, h | .bytes _, h => by
    simp [nesting] at h

/-- Some item of a list opens the level of the list's nesting. -/
theorem opens_nestingOfList : ∀ items : List Value, 0 < nestingOfList items →
    ∃ w ∈ items, w.Opens (nestingOfList items)
  | [], h => by simp [nestingOfList] at h
  | v :: vs, h => by
    rw [nestingOfList] at h ⊢
    -- the deeper of the head and the rest gives the level
    by_cases hv : nestingOfList vs ≤ v.nesting
    · rw [Nat.max_eq_left hv]
      exact ⟨v, List.mem_cons_self, opens_nesting v (by omega)⟩
    · have hlt : v.nesting < nestingOfList vs := by omega
      rw [Nat.max_eq_right (Nat.le_of_lt hlt)]
      obtain ⟨w, hw, hopen⟩ := opens_nestingOfList vs (by omega)
      exact ⟨w, List.mem_cons_of_mem v hw, hopen⟩

/-- Some value of a document opens the level of the document's nesting. -/
theorem opens_nestingOfFields : ∀ fields : List (String × Value), 0 < nestingOfFields fields →
    ∃ k w, (k, w) ∈ fields ∧ w.Opens (nestingOfFields fields)
  | [], h => by simp [nestingOfFields] at h
  | (k, v) :: fs, h => by
    rw [nestingOfFields] at h ⊢
    by_cases hv : nestingOfFields fs ≤ v.nesting
    · rw [Nat.max_eq_left hv]
      exact ⟨k, v, List.mem_cons_self, opens_nesting v (by omega)⟩
    · have hlt : v.nesting < nestingOfFields fs := by omega
      rw [Nat.max_eq_right (Nat.le_of_lt hlt)]
      obtain ⟨k', w, hw, hopen⟩ := opens_nestingOfFields fs (by omega)
      exact ⟨k', w, List.mem_cons_of_mem _ hw, hopen⟩
end

/-- A value nests at most `n` levels exactly when it opens no level below `n`. -/
theorem nesting_le_iff {v : Value} {n : Nat} : v.nesting ≤ n ↔ ∀ ℓ, v.Opens ℓ → ℓ ≤ n := by
  refine ⟨fun h ℓ hℓ => Nat.le_trans hℓ.le_nesting h, fun h => ?_⟩
  rcases Nat.eq_zero_or_pos v.nesting with h0 | h0
  · omega
  · exact h _ (opens_nesting v h0)

/-- A document's values nest as deep as its fields. -/
theorem nestingOfFields_eq_nestingOfList (fields : List (String × Value)) :
    nestingOfFields fields = nestingOfList (Document.values fields) := by
  induction fields with
  | nil => rfl
  | cons f fs ih =>
    obtain ⟨k, v⟩ := f
    have hvalues : Document.values ((k, v) :: fs) = v :: Document.values fs := rfl
    rw [nestingOfFields, hvalues, nestingOfList, ih]

/-- Held at depth `depth`, some item of a list reaches below level `maxDepth` exactly when the
deepest item does. -/
theorem any_reaches_eq {items : List Value} {depth : Nat} (h : depth ≤ maxDepth) :
    (items.any fun v => 0 < v.nesting && maxDepth < depth + v.nesting) =
      decide (maxDepth < depth + nestingOfList items) := by
  induction items with
  | nil =>
    simp only [List.any_nil, nestingOfList]
    exact (decide_eq_false (by omega)).symm
  | cons v vs ih =>
    rw [List.any_cons, ih, nestingOfList, Bool.eq_iff_iff]
    simp only [Bool.or_eq_true, Bool.and_eq_true, decide_eq_true_eq]
    omega

end Value

namespace Document

variable {d : Document} {bs : Bytes}

/-- The values pushed onto a stack are visited before the stack below them. -/
theorem any_pushAll (P : Value × Nat → Bool) (depth : Nat) (values : List Value)
    (pending : List (Value × Nat)) :
    (pushAll depth values pending).any P = ((values.any fun v => P (v, depth)) || pending.any P) := by
  induction values generalizing pending with
  | nil => rfl
  | cons v vs ih =>
    have hstep : pushAll depth (v :: vs) pending = pushAll depth vs ((v, depth) :: pending) := rfl
    rw [hstep, ih, List.any_cons, List.any_cons]
    cases P (v, depth) <;> simp

/-- A list or document whose deepest item nests `n` levels, held at depth `depth`, reaches below
level `maxDepth` exactly when its deepest item, held one level further down, does. -/
theorem reaches_holder (n depth : Nat) :
    (decide (0 < n + 1) && decide (maxDepth < depth + (n + 1))) =
      decide (maxDepth < depth + 1 + n) := by
  rw [Bool.eq_iff_iff]
  simp only [Bool.and_eq_true, decide_eq_true_eq]
  omega

/-- A list or document held at a depth with no level left below it reaches below `maxDepth`. -/
theorem reaches_of_deep {n depth : Nat} (hdeep : depth + 1 > maxDepth) :
    (decide (0 < n + 1) && decide (maxDepth < depth + (n + 1))) = true := by
  rw [reaches_holder]
  exact decide_eq_true (by omega)

/-- The depth check finds exactly the values on its stack that hold a list or document below
level `maxDepth`, counting levels from the depth holding each value. -/
theorem tooDeepFrom_eq_any (pending : List (Value × Nat)) :
    tooDeepFrom pending =
      pending.any fun p => 0 < p.1.nesting && maxDepth < p.2 + p.1.nesting := by
  fun_induction tooDeepFrom pending with
  | case1 => rfl
  | case2 items depth rest hdeep =>
    -- the list itself stands past `maxDepth`
    simp only [List.any_cons]
    rw [Value.nesting, reaches_of_deep hdeep, Bool.true_or]
  | case3 items depth rest hfits ih =>
    simp only [ih, any_pushAll, List.any_cons]
    rw [Value.any_reaches_eq (by omega), Value.nesting, reaches_holder]
  | case4 fields depth rest hdeep =>
    simp only [List.any_cons]
    rw [Value.nesting, reaches_of_deep hdeep, Bool.true_or]
  | case5 fields depth rest hfits ih =>
    simp only [ih, any_pushAll, List.any_cons]
    rw [Value.any_reaches_eq (by omega), Value.nesting, reaches_holder,
      Value.nestingOfFields_eq_nestingOfList]
  | case6 p rest hlist hdoc ih =>
    -- a scalar opens no level
    obtain ⟨v, depth⟩ := p
    have hflat : v.nesting = 0 := by
      cases v <;> first | rfl | exact (hlist _ _ rfl).elim | exact (hdoc _ _ rfl).elim
    simp only [ih, List.any_cons]
    rw [hflat]
    rfl

/-- The depth check on a document finds exactly the fields whose values nest more than
`maxDepth` levels. -/
theorem tooDeep_eq_any (d : Document) : d.tooDeep = d.any fun f => maxDepth < f.2.nesting := by
  rw [tooDeep, tooDeepFrom_eq_any, any_pushAll, List.any_nil, Bool.or_false, values, List.any_map]
  congr 1
  funext f
  rw [Bool.eq_iff_iff]
  simp only [Function.comp, Bool.and_eq_true, decide_eq_true_eq]
  omega

/-- A document is too deep exactly when one of its values nests more than `maxDepth` levels. -/
theorem tooDeep_eq_false_iff : d.tooDeep = false ↔ ∀ f ∈ d, f.2.nesting ≤ maxDepth := by
  simp [tooDeep_eq_any]

/-- A document the depth check passes is written as its packed form. -/
theorem encode_of_shallow (hd : d.tooDeep = false) : d.encode = .ok d.pack := by
  rw [encode, hd]
  rfl

/-- A document the depth check refuses is not written. -/
theorem encode_of_deep (hd : d.tooDeep = true) :
    d.encode = .error (.documentTooDeep maxDepth) := by
  rw [encode, hd]
  rfl

/-- Writing a document succeeds exactly when no list or document in it stands below level
`maxDepth`, and then gives its packed form. -/
theorem encode_eq_ok_iff :
    d.encode = .ok bs ↔ bs = d.pack ∧ ∀ f ∈ d, ∀ ℓ, f.2.Opens ℓ → ℓ ≤ maxDepth := by
  cases hd : d.tooDeep
  · have hall := tooDeep_eq_false_iff.1 hd
    rw [encode_of_shallow hd, Except.ok.injEq]
    exact ⟨fun h => ⟨h.symm, fun f hf => Value.nesting_le_iff.1 (hall f hf)⟩, fun h => h.1.symm⟩
  · simp only [encode_of_deep hd, reduceCtorEq, false_iff, not_and]
    intro _ hall
    have hdeep : d.tooDeep = false :=
      tooDeep_eq_false_iff.2 fun f hf => Value.nesting_le_iff.2 (hall f hf)
    rw [hd] at hdeep
    cases hdeep

end Document

/-! ## Steps of a reading -/

namespace Decoder

variable {α β : Type} {x : Decoder α} {f : α → Decoder β} {s s' : Decoding} {a : α}
  {e : PackError}

/-- The state a step ended in, whether it succeeded or failed. -/
def after : EStateM.Result PackError Decoding α → Decoding
  | .ok _ s => s
  | .error _ s => s

@[simp] theorem after_ok : after (.ok a s : EStateM.Result PackError Decoding α) = s := rfl
@[simp] theorem after_error : after (.error e s : EStateM.Result PackError Decoding α) = s := rfl

theorem run_bind_ok (h : x.run s = .ok a s') : (x >>= f).run s = (f a).run s' := by
  simp only [EStateM.run] at h ⊢
  show EStateM.bind x f s = _
  simp only [EStateM.bind, h]

theorem run_bind_error (h : x.run s = .error e s') : (x >>= f).run s = .error e s' := by
  simp only [EStateM.run] at h ⊢
  show EStateM.bind x f s = _
  simp only [EStateM.bind, h]

@[simp] theorem run_pure : (pure a : Decoder α).run s = .ok a s := rfl

@[simp] theorem run_throw : (throw e : Decoder α).run s = .error e s := rfl

theorem run_read_ok {r : Packed.Reader α} {rest : Bytes} (h : r s.input = .ok (a, rest)) :
    (read r).run s = .ok a { s with input := rest } := by
  simp only [EStateM.run, read, h]

/-- A read from a given input, stated on the state's fields so that the input is matched as
written and never unfolded. -/
theorem run_read_at {r : Packed.Reader α} {input rest : Bytes} {d : Nat}
    (h : r input = .ok (a, rest)) : (read r).run ⟨input, d⟩ = .ok a ⟨rest, d⟩ :=
  run_read_ok h

theorem run_read_error {r : Packed.Reader α} (h : r s.input = .error e) :
    (read r).run s = .error e s := by
  simp only [EStateM.run, read, h]

@[simp] theorem run_get : (get : Decoder Decoding).run s = .ok s s := rfl

@[simp] theorem run_set : (set s' : Decoder PUnit).run s = .ok ⟨⟩ s' := rfl

theorem run_enter_full (h : maxDepth < s.depth + 1) :
    enter.run s = .error (.tooDeep maxDepth) s := by
  rw [enter, run_bind_ok run_get]
  simp only [gt_iff_lt, h, if_true]
  exact run_bind_error run_throw

theorem run_enter (h : s.depth + 1 ≤ maxDepth) :
    enter.run s = .ok () { s with depth := s.depth + 1 } := by
  rw [enter, run_bind_ok run_get]
  simp only [gt_iff_lt, Nat.not_lt.2 h, if_false]
  exact run_set

@[simp] theorem run_leave : leave.run s = .ok () { s with depth := s.depth - 1 } := rfl

theorem run_tryFinally_ok {h : Decoder β} (hx : x.run s = .ok a s') :
    (tryFinally x h).run s = match h.run s' with
      | .ok _ s'' => .ok a s''
      | .error e s'' => .error e s'' := by
  simp only [EStateM.run] at hx ⊢
  show EStateM.bind (tryFinally' x fun _ => h) (fun p => pure p.1) s = _
  simp only [EStateM.bind, tryFinally', hx]
  cases h s' <;> rfl

theorem run_tryFinally_error {h : Decoder β} (hx : x.run s = .error e s') :
    (tryFinally x h).run s = match h.run s' with
      | .ok _ s'' => .error e s''
      | .error e₂ s'' => .error e₂ s'' := by
  simp only [EStateM.run] at hx ⊢
  show EStateM.bind (tryFinally' x fun _ => h) (fun p => pure p.1) s = _
  simp only [EStateM.bind, tryFinally', hx]
  cases h s' <;> rfl

/-- A level past `maxDepth` is refused before anything is read. -/
theorem run_nested_full (h : maxDepth < s.depth + 1) :
    (nested x).run s = .error (.tooDeep maxDepth) s :=
  run_bind_error (run_enter_full h)

/-- A reading one level down that succeeds ends with the counter lowered again. -/
theorem run_nested_ok (h : s.depth + 1 ≤ maxDepth)
    (hx : x.run { s with depth := s.depth + 1 } = .ok a s') :
    (nested x).run s = .ok a { s' with depth := s'.depth - 1 } := by
  rw [nested, run_bind_ok (run_enter h), run_tryFinally_ok hx, run_leave]

/-- A reading one level down that fails ends with the counter lowered again too. -/
theorem run_nested_error (h : s.depth + 1 ≤ maxDepth)
    (hx : x.run { s with depth := s.depth + 1 } = .error e s') :
    (nested x).run s = .error e { s' with depth := s'.depth - 1 } := by
  rw [nested, run_bind_ok (run_enter h), run_tryFinally_error hx, run_leave]

/-! ## Steps that keep the counter -/

/-- A step that ends with the counter where it found it, whether it succeeds or fails. -/
def KeepsDepth (x : Decoder α) : Prop := ∀ s, (after (x.run s)).depth = s.depth

theorem KeepsDepth.pure (a : α) : KeepsDepth (Pure.pure a : Decoder α) := fun _ => rfl

theorem KeepsDepth.throw (e : PackError) : KeepsDepth (MonadExcept.throw e : Decoder α) :=
  fun _ => rfl

theorem KeepsDepth.read (r : Packed.Reader α) : KeepsDepth (read r) := by
  intro s
  cases hr : r s.input with
  | ok p => rw [run_read_ok hr]; rfl
  | error e => rw [run_read_error hr]; rfl

theorem KeepsDepth.bind (hx : KeepsDepth x) (hf : ∀ a, KeepsDepth (f a)) :
    KeepsDepth (x >>= f) := by
  intro s
  have hs := hx s
  cases hr : x.run s with
  | ok a s' =>
    rw [hr, after_ok] at hs
    rw [run_bind_ok hr, hf a s', hs]
  | error e s' =>
    rw [hr, after_error] at hs
    rw [run_bind_error hr, after_error, hs]

/-- A reading one level down keeps the counter when the reading inside does: the level it
opens, it closes on every way out. -/
theorem KeepsDepth.nested (hx : KeepsDepth x) : KeepsDepth (nested x) := by
  intro s
  by_cases hfull : maxDepth < s.depth + 1
  · rw [run_nested_full hfull]
    rfl
  · have hroom : s.depth + 1 ≤ maxDepth := Nat.le_of_not_lt hfull
    have hs := hx { s with depth := s.depth + 1 }
    cases hr : x.run { s with depth := s.depth + 1 } with
    | ok a s' =>
      rw [hr, after_ok] at hs
      rw [run_nested_ok hroom hr, after_ok]
      simp only [hs]
      omega
    | error e s' =>
      rw [hr, after_error] at hs
      rw [run_nested_error hroom hr, after_error]
      simp only [hs]
      omega

end Decoder

namespace Value

open Decoder

mutual
/-- Reading a value keeps the counter. -/
theorem keepsDepth_reader (room : Nat) : KeepsDepth (reader room) := by
  unfold reader
  refine .bind (.read _) fun tag => ?_
  -- one case per alternative; only lists and documents open a level
  split
  · exact .pure _
  split
  · exact .bind (.read _) fun _ => .pure _
  split
  · exact .bind (.read _) fun _ => .pure _
  split
  · exact .bind (.read _) fun _ => .pure _
  split
  · exact .bind (.read _) fun _ => .pure _
  split
  · exact .bind (.read _) fun _ => .pure _
  split
  · cases room with
    | zero => exact .nested (.throw _)
    | succ r =>
      exact .bind (.nested (.bind (.read _) fun n => keepsDepth_itemsReader r n)) fun _ => .pure _
  split
  · cases room with
    | zero => exact .nested (.throw _)
    | succ r =>
      exact .bind (.nested (.bind (.read _) fun n => keepsDepth_fieldsReader r n)) fun _ => .pure _
  · exact .throw _
termination_by (room, 0)

/-- Reading items keeps the counter. -/
theorem keepsDepth_itemsReader (room n : Nat) : KeepsDepth (itemsReader room n) := by
  cases n with
  | zero =>
    unfold itemsReader
    exact .pure _
  | succ n =>
    unfold itemsReader
    exact .bind (keepsDepth_reader room) fun _ =>
      .bind (keepsDepth_itemsReader room n) fun _ => .pure _
termination_by (room, n + 1)

/-- Reading fields keeps the counter. -/
theorem keepsDepth_fieldsReader (room n : Nat) : KeepsDepth (fieldsReader room n) := by
  cases n with
  | zero =>
    unfold fieldsReader
    exact .pure _
  | succ n =>
    unfold fieldsReader
    exact .bind (.read _) fun _ => .bind (keepsDepth_reader room) fun _ =>
      .bind (keepsDepth_fieldsReader room n) fun _ => .pure _
termination_by (room, n + 1)
end

end Value

namespace Document

/-- Reading a document keeps the counter. -/
theorem keepsDepth_reader (room : Nat) : Decoder.KeepsDepth (reader room) :=
  .bind (.read _) fun n => .bind (Value.keepsDepth_fieldsReader room n) fun _ => .pure _

/-- Every reading of a stored form, successful or failing, leaves the thread's counter where
it was before. -/
theorem decodeOn_depth (depth : Nat) (bs : Bytes) : (decodeOn depth bs).2 = depth := by
  have hkeep := keepsDepth_reader (maxDepth - depth) ⟨bs, depth⟩
  unfold decodeOn
  split
  next d s hrun =>
    rw [hrun, Decoder.after_ok] at hkeep
    exact hkeep
  next e s hrun =>
    rw [hrun, Decoder.after_error] at hkeep
    exact hkeep

end Document

end ArchiveStore
