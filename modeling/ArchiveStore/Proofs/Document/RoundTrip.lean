import ArchiveStore.Proofs.Document.Depth
import ArchiveStore.Proofs.Contents.Reads
/-!
# Documents read back as written

A document a program holds is a `DocumentMap`, its keys ascending at every level; its packed
form can write it when every length in it is below `2 ^ 64` (`Document.storable`;
`Document.wellFormed` is both). Reading the packed form of any value gives the value back with
each document's fields put in key order (`Value.normal`), which changes nothing in an ordered
map; so a written document reads back as itself, also through a store
(`Database.getDocument_putDocument`). Whatever the stored form, what reading returns is an
ordered map (`Document.ascending_of_decode`).

Writing and reading agree on depth. Reading a value that nests deeper than the levels left
is refused as too deep (`Value.reader_pack_deep`), and nothing read nests deeper than the levels
it was allowed (`Value.yields_reader`). With the counter at zero, reading accepts exactly the
packed documents that writing accepts.

`document_codec_exact` puts the codec's laws together: writing succeeds exactly on documents
with no list or document below level `maxDepth`; what it writes reads back, also after a store
put it; reading refuses every packed document deeper than that; and every reading leaves the
thread's counter where it found it.
-/

namespace ArchiveStore

/-! ## Documents as a program holds them -/

namespace Value

mutual
/-- Whether every text, byte string, list and document in a value is shorter than `2 ^ 64`
bytes or items, so that its packed form can write its length. -/
def storable : Value → Bool
  | .text s => decide ((Bytes.ofString s).length < Nat.pow 2 64)
  | .bytes b => decide (b.length < Nat.pow 2 64)
  | .list items => decide (items.length < Nat.pow 2 64) && storableList items
  | .document fields => decide (fields.length < Nat.pow 2 64) && storableFields fields
  | _ => true

/-- Whether every value of a list is storable. -/
def storableList : List Value → Bool
  | [] => true
  | v :: vs => v.storable && storableList vs

/-- Whether every key of a document has fewer than `2 ^ 64` bytes and every value is
storable. -/
def storableFields : List (String × Value) → Bool
  | [] => true
  | (k, v) :: fs =>
    decide ((Bytes.ofString k).length < Nat.pow 2 64) && v.storable && storableFields fs
end

mutual
/-- A value as reading gives it back: every document's fields in key order, the last of equal
keys kept. -/
def normal : Value → Value
  | .list items => .list (normalList items)
  | .document fields => .document (Document.ofFields (normalFields fields))
  | v => v

/-- The values of a list as reading gives them back. -/
def normalList : List Value → List Value
  | [] => []
  | v :: vs => v.normal :: normalList vs

/-- The fields of a document as reading gives them back, before they are put in key order. -/
def normalFields : List (String × Value) → List (String × Value)
  | [] => []
  | (k, v) :: fs => (k, v.normal) :: normalFields fs
end

end Value

namespace Document

/-- Whether a document has fewer than `2 ^ 64` fields and all its values are storable. -/
def storable (d : Document) : Bool := decide (d.length < Nat.pow 2 64) && Value.storableFields d

/-- Whether a document is one a program holds: keys ascending at every level, and every
length below `2 ^ 64`. -/
def wellFormed (d : Document) : Bool :=
  d.storable && Value.keysAscend d && Value.orderedFields d

/-- A well-formed document is a storable ordered map. -/
theorem wellFormed_iff {d : Document} : d.wellFormed = true ↔ d.storable = true ∧ d.ascending = true := by
  rw [wellFormed, ascending, Bool.and_assoc, Bool.and_eq_true]

/-! ## Putting fields in key order -/

variable {d : Document} {key : String} {v : Value} {f : String × Value}

/-- A key above every key of a document is added at its end. -/
theorem insert_of_lt (h : ∀ g ∈ d, g.1 < key) : d.insert key v = d ++ [(key, v)] := by
  induction d with
  | nil => rfl
  | cons g gs ih =>
    obtain ⟨k, w⟩ := g
    have hk : k < key := h (k, w) List.mem_cons_self
    rw [insert, if_neg (String.lt_asymm hk), if_neg (Ne.symm (String.ne_of_lt hk)),
      ih fun g hg => h g (List.mem_cons_of_mem _ hg), List.cons_append]

/-- A field of a document with a field set is the field set or one that was there. -/
theorem mem_insert (h : f ∈ d.insert key v) : f ∈ d ∨ f = (key, v) := by
  induction d with
  | nil => exact .inr (List.mem_singleton.1 h)
  | cons g gs ih =>
    obtain ⟨k, w⟩ := g
    rw [insert] at h
    split at h
    · rcases List.mem_cons.1 h with rfl | h
      · exact .inr rfl
      · exact .inl h
    · split at h
      · rcases List.mem_cons.1 h with rfl | h
        · exact .inr rfl
        · exact .inl (List.mem_cons_of_mem _ h)
      · rcases List.mem_cons.1 h with rfl | h
        · exact .inl List.mem_cons_self
        · rcases ih h with h | h
          · exact .inl (List.mem_cons_of_mem _ h)
          · exact .inr h

/-- Adding fields in order to a document whose keys, with theirs, ascend appends them. -/
theorem foldl_insert_of_ascending {acc : Document} {fs : List (String × Value)}
    (h : ((acc ++ fs).map (·.1)).Pairwise (· < ·)) :
    fs.foldl (fun (d : Document) f => d.insert f.1 f.2) acc = acc ++ fs := by
  induction fs generalizing acc with
  | nil => simp
  | cons g gs ih =>
    rw [List.foldl_cons]
    -- every key before `g` lies below it
    have hbelow : ∀ a ∈ acc, a.1 < g.1 := by
      rw [List.map_append, List.pairwise_append] at h
      exact fun a ha => h.2.2 a.1 (List.mem_map_of_mem ha) g.1 (by simp)
    rw [insert_of_lt hbelow, ih (by simpa using h)]
    simp

/-- Fields whose keys ascend make the document of exactly those fields. -/
theorem ofFields_of_ascending {fs : List (String × Value)}
    (h : (fs.map (·.1)).Pairwise (· < ·)) : ofFields fs = fs := by
  have hasc : ((([] : Document) ++ fs).map (·.1)).Pairwise (· < ·) := by
    rw [List.nil_append]
    exact h
  exact foldl_insert_of_ascending hasc

/-- Every field left after adding fields in order was there before or is one of them. -/
theorem mem_foldl_insert {fs : List (String × Value)} {acc : Document}
    (h : f ∈ fs.foldl (fun (d : Document) f => d.insert f.1 f.2) acc) : f ∈ acc ∨ f ∈ fs := by
  induction fs generalizing acc with
  | nil => exact .inl h
  | cons g gs ih =>
    rcases ih h with h | h
    · rcases mem_insert h with h | rfl
      · exact .inl h
      · exact .inr List.mem_cons_self
    · exact .inr (List.mem_cons_of_mem _ h)

/-- Every field of the document of some fields is one of them. -/
theorem mem_ofFields {fs : List (String × Value)} (h : f ∈ ofFields fs) : f ∈ fs := by
  rcases mem_foldl_insert h with h | h
  · cases h
  · exact h

/-- Setting a field keeps the keys of a document ascending. -/
theorem keysAscend_insert (h : Value.keysAscend d = true) :
    Value.keysAscend (d.insert key v) = true := by
  simp only [Value.keysAscend, decide_eq_true_eq, List.pairwise_map] at h ⊢
  induction d with
  | nil => exact List.pairwise_singleton _ _
  | cons g gs ih =>
    obtain ⟨k, w⟩ := g
    obtain ⟨hk, hgs⟩ := List.pairwise_cons.1 h
    rw [insert]
    split
    · -- the new key goes first, below `k` and so below every later key
      next hlt =>
      refine .cons (fun g hg => ?_) h
      rcases List.mem_cons.1 hg with rfl | hg
      · exact hlt
      · exact String.lt_trans hlt (hk g hg)
    split
    · -- the new value replaces the one under `k`
      next heq =>
      subst heq
      exact .cons hk hgs
    · -- the new key lies above `k`, so it goes among the later keys
      next hge hne =>
      have hgt : k < key := Std.lt_of_le_of_ne hge (Ne.symm hne)
      refine .cons (fun g hg => ?_) (ih hgs)
      rcases mem_insert hg with hg | rfl
      · exact hk g hg
      · exact hgt

/-- The document of any fields has its keys ascending. -/
theorem keysAscend_ofFields (fs : List (String × Value)) :
    Value.keysAscend (ofFields fs) = true := by
  -- adding the fields one by one keeps the keys ascending from the empty document on
  have hfold : ∀ acc : Document, Value.keysAscend acc = true →
      Value.keysAscend (fs.foldl (fun (d : Document) f => d.insert f.1 f.2) acc) = true := by
    induction fs with
    | nil => exact fun acc h => h
    | cons g gs ih => exact fun acc h => ih _ (keysAscend_insert h)
  exact hfold [] rfl

end Document

namespace Value

theorem nestingOfFields_le_iff {fs : List (String × Value)} {n : Nat} :
    nestingOfFields fs ≤ n ↔ ∀ f ∈ fs, f.2.nesting ≤ n := by
  induction fs with
  | nil => simp [nestingOfFields]
  | cons f fs ih =>
    obtain ⟨k, v⟩ := f
    rw [nestingOfFields, Nat.max_le, ih, List.forall_mem_cons]

/-- Putting fields in key order nests no deeper. -/
theorem nestingOfFields_ofFields_le (fs : List (String × Value)) :
    nestingOfFields (Document.ofFields fs) ≤ nestingOfFields fs :=
  nestingOfFields_le_iff.2 fun f hf =>
    nestingOfFields_le_iff.1 (Nat.le_refl _) f (Document.mem_ofFields hf)

theorem orderedFields_iff {fs : List (String × Value)} :
    orderedFields fs = true ↔ ∀ f ∈ fs, f.2.ordered = true := by
  induction fs with
  | nil => simp [orderedFields]
  | cons f fs ih =>
    obtain ⟨k, v⟩ := f
    rw [orderedFields, Bool.and_eq_true, ih, List.forall_mem_cons]

/-- Putting fields whose values are ordered in key order makes an ordered map. -/
theorem ascending_ofFields {fs : List (String × Value)} (h : orderedFields fs = true) :
    (Document.ofFields fs).ascending = true := by
  rw [Document.ascending, Document.keysAscend_ofFields, Bool.true_and, orderedFields_iff]
  exact fun f hf => orderedFields_iff.1 h f (Document.mem_ofFields hf)

mutual
/-- An ordered value reads back as itself. -/
theorem normal_of_ordered : ∀ v : Value, v.ordered = true → v.normal = v
  | .list items, h => by
    simp only [ordered] at h
    simp only [normal, normalList_of_ordered items h]
  | .document fields, h => by
    simp only [ordered, Bool.and_eq_true] at h
    rw [normal, normalFields_of_ordered fields h.2,
      Document.ofFields_of_ascending (of_decide_eq_true h.1)]
  | .null, _ | .bool _, _ | .int _, _ | .float _, _ | .text _, _ | .bytes _, _ => rfl

theorem normalList_of_ordered : ∀ items : List Value, orderedList items = true →
    normalList items = items
  | [], _ => rfl
  | v :: vs, h => by
    simp only [orderedList, Bool.and_eq_true] at h
    rw [normalList, normal_of_ordered v h.1, normalList_of_ordered vs h.2]

theorem normalFields_of_ordered : ∀ fields : List (String × Value), orderedFields fields = true →
    normalFields fields = fields
  | [], _ => rfl
  | (k, v) :: fs, h => by
    simp only [orderedFields, Bool.and_eq_true] at h
    rw [normalFields, normal_of_ordered v h.1, normalFields_of_ordered fs h.2]
end

end Value

/-! ## What reading returns -/

namespace Decoder

variable {α β : Type} {x : Decoder α} {f : α → Decoder β} {P : β → Prop} {Q : α → Prop}

/-- Every value a step returns satisfies `P`. -/
def Yields (x : Decoder α) (P : α → Prop) : Prop := ∀ s a s', x.run s = .ok a s' → P a

theorem Yields.pure {a : α} (h : Q a) : Yields (Pure.pure a : Decoder α) Q := by
  intro s a' s' hr
  cases hr
  exact h

theorem Yields.throw (e : PackError) : Yields (MonadExcept.throw e : Decoder α) Q := by
  intro s a s' hr
  cases hr

theorem Yields.read (r : Packed.Reader α) : Yields (read r) fun _ => True :=
  fun _ _ _ _ => trivial

theorem Yields.bind (hx : Yields x Q) (hf : ∀ a, Q a → Yields (f a) P) : Yields (x >>= f) P := by
  intro s b s' hr
  cases hx' : x.run s with
  | ok a s₁ =>
    rw [run_bind_ok hx'] at hr
    exact hf a (hx s a s₁ hx') s₁ b s' hr
  | error e s₁ =>
    rw [run_bind_error hx'] at hr
    cases hr

theorem Yields.nested (hx : Yields x Q) : Yields (nested x) Q := by
  intro s a s' hr
  by_cases hfull : maxDepth < s.depth + 1
  · rw [run_nested_full hfull] at hr
    cases hr
  · have hroom : s.depth + 1 ≤ maxDepth := Nat.le_of_not_lt hfull
    cases hx' : x.run { s with depth := s.depth + 1 } with
    | ok a' s₁ =>
      rw [run_nested_ok hroom hx'] at hr
      cases hr
      exact hx _ _ _ hx'
    | error e s₁ =>
      rw [run_nested_error hroom hx'] at hr
      cases hr

end Decoder

namespace Value

open Decoder

mutual
/-- What reading a value returns: with `room` levels it nests at most `room` levels, and every
document in it has its keys in order, since reading puts each document's fields in key order. -/
theorem yields_reader (room : Nat) :
    Yields (reader room) fun v => v.nesting ≤ room ∧ v.ordered = true := by
  unfold reader
  refine .bind (.read _) fun tag _ => ?_
  split
  · exact .pure (by simp [nesting, ordered])
  split
  · exact .bind (.read _) fun _ _ => .pure (by simp [nesting, ordered])
  split
  · exact .bind (.read _) fun _ _ => .pure (by simp [nesting, ordered])
  split
  · exact .bind (.read _) fun _ _ => .pure (by simp [nesting, ordered])
  split
  · exact .bind (.read _) fun _ _ => .pure (by simp [nesting, ordered])
  split
  · exact .bind (.read _) fun _ _ => .pure (by simp [nesting, ordered])
  split
  · cases room with
    | zero => exact .nested (.throw _)
    | succ r =>
      refine .bind (.nested (.bind (.read _) fun n _ => yields_itemsReader r n)) fun items h => ?_
      obtain ⟨hn, ho⟩ := h
      exact .pure ⟨by rw [nesting]; omega, by rw [ordered]; exact ho⟩
  split
  · cases room with
    | zero => exact .nested (.throw _)
    | succ r =>
      refine .bind (.nested (.bind (.read _) fun n _ => yields_fieldsReader r n)) fun fs h => ?_
      obtain ⟨hn, ho⟩ := h
      -- putting the fields in key order nests no deeper and orders the keys
      have hle := nestingOfFields_ofFields_le fs
      exact .pure ⟨by rw [nesting]; omega, by rw [ordered]; exact ascending_ofFields ho⟩
  · exact .throw _
termination_by (room, 0)

/-- What reading values returns: with `room` levels they nest at most `room` levels and are
ordered. -/
theorem yields_itemsReader (room n : Nat) :
    Yields (itemsReader room n) fun vs => nestingOfList vs ≤ room ∧ orderedList vs = true := by
  cases n with
  | zero =>
    unfold itemsReader
    exact .pure (by simp [nestingOfList, orderedList])
  | succ n =>
    unfold itemsReader
    refine .bind (yields_reader room) fun v hv => .bind (yields_itemsReader room n) fun vs hvs => ?_
    exact .pure ⟨by rw [nestingOfList]; omega, by rw [orderedList, hv.2, hvs.2]; rfl⟩
termination_by (room, n + 1)

/-- What reading fields returns: with `room` levels their values nest at most `room` levels and
are ordered. -/
theorem yields_fieldsReader (room n : Nat) :
    Yields (fieldsReader room n) fun fs => nestingOfFields fs ≤ room ∧ orderedFields fs = true := by
  cases n with
  | zero =>
    unfold fieldsReader
    exact .pure (by simp [nestingOfFields, orderedFields])
  | succ n =>
    unfold fieldsReader
    refine .bind (.read _) fun k _ => .bind (yields_reader room) fun v hv =>
      .bind (yields_fieldsReader room n) fun fs hfs => ?_
    exact .pure ⟨by rw [nestingOfFields]; omega, by rw [orderedFields, hv.2, hfs.2]; rfl⟩
termination_by (room, n + 1)
end

/-! ## Reading packed values -/

/-- Reading an alternative's index written by the writer. -/
theorem readU32_tag {tag : Nat} (rest : Bytes) (h : tag < 8) :
    Packed.readU32 (Packed.u32 tag ++ rest) = .ok (tag, rest) := by
  rw [Packed.readU32_append, Nat.mod_eq_of_lt (Nat.lt_of_lt_of_le h (by decide))]

/-- Reading a boolean byte written by the writer. -/
theorem readBool_append (b : Bool) (rest : Bytes) :
    Packed.readBool ([if b then 1 else 0] ++ rest) = .ok (b, rest) := by
  cases b <;> rfl

/-- The bound on lengths, as the writer's eight bytes state it. -/
theorem pow_two_sixtyfour : Nat.pow 2 64 = Nat.pow 256 8 := rfl

/-- After a list or document is read one level down, the counter is back where it was. -/
theorem state_back (input : Bytes) (d : Nat) :
    ({ input, depth := d + 1 - 1 } : Decoding) = ⟨input, d⟩ := by
  simp

mutual
/-- A storable value that nests no deeper than the levels left reads back as its normal
form, leaving what follows it and the counter as they were. -/
theorem reader_pack : ∀ (v : Value) (room d : Nat) (rest : Bytes), d + room = maxDepth →
    v.storable = true → v.nesting ≤ room →
    (reader room).run ⟨v.pack ++ rest, d⟩ = .ok v.normal ⟨rest, d⟩
  | .null, room, d, rest, _, _, _ => by
    unfold reader
    rw [pack, run_bind_ok (run_read_at (readU32_tag rest (by decide)))]
    rfl
  | .bool b, room, d, rest, _, _, _ => by
    unfold reader
    rw [pack, List.append_assoc, run_bind_ok (run_read_at (readU32_tag _ (by decide)))]
    simp only [Nat.reduceEqDiff, ↓reduceIte]
    rw [run_bind_ok (run_read_at (readBool_append b rest))]
    rfl
  | .int n, room, d, rest, _, _, _ => by
    unfold reader
    rw [pack, List.append_assoc, run_bind_ok (run_read_at (readU32_tag _ (by decide)))]
    simp only [Nat.reduceEqDiff, ↓reduceIte]
    rw [run_bind_ok (run_read_at (Packed.readI64_append n rest))]
    rfl
  | .float x, room, d, rest, _, _, _ => by
    unfold reader
    rw [pack, List.append_assoc, run_bind_ok (run_read_at (readU32_tag _ (by decide)))]
    simp only [Nat.reduceEqDiff, ↓reduceIte]
    have hbits : x.bits.toNat < Nat.pow 256 8 := x.bits.toNat_lt
    rw [run_bind_ok (run_read_at (Packed.readU64_append _ rest)), Nat.mod_eq_of_lt hbits,
      UInt64.ofNat_toNat]
    rfl
  | .text s, room, d, rest, _, hs, _ => by
    unfold reader
    rw [pack, List.append_assoc, run_bind_ok (run_read_at (readU32_tag _ (by decide)))]
    simp only [Nat.reduceEqDiff, ↓reduceIte]
    have hlen : (Bytes.ofString s).length < Nat.pow 256 8 := by
      simpa [storable] using hs
    rw [run_bind_ok (run_read_at (Packed.readText_append rest hlen))]
    rfl
  | .bytes b, room, d, rest, _, hs, _ => by
    unfold reader
    rw [pack, List.append_assoc, run_bind_ok (run_read_at (readU32_tag _ (by decide)))]
    simp only [Nat.reduceEqDiff, ↓reduceIte]
    have hlen : b.length < Nat.pow 256 8 := by
      simpa [storable] using hs
    rw [run_bind_ok (run_read_at (Packed.readBytes_append rest hlen))]
    rfl
  | .list items, room, d, rest, hroom, hs, hn => by
    simp only [storable, Bool.and_eq_true, decide_eq_true_eq] at hs
    rw [nesting] at hn
    obtain ⟨r, rfl⟩ : ∃ r, room = r + 1 := ⟨room - 1, by omega⟩
    unfold reader
    rw [pack, List.append_assoc, List.append_assoc,
      run_bind_ok (run_read_at (readU32_tag _ (by decide)))]
    simp only [Nat.reduceEqDiff, ↓reduceIte]
    -- one level down: the length, then the items
    have hitems : ((do itemsReader r (← Decoder.read Packed.readU64)) : Decoder _).run
        ⟨Packed.u64 items.length ++ (packList items ++ rest), d + 1⟩ =
          .ok (normalList items) ⟨rest, d + 1⟩ := by
      rw [run_bind_ok (run_read_at (Packed.readU64_append _ _)),
        Nat.mod_eq_of_lt (pow_two_sixtyfour ▸ hs.1)]
      exact itemsReader_packList items r (d + 1) rest (by omega) hs.2 (by omega)
    rw [run_bind_ok (run_nested_ok (show d + 1 ≤ maxDepth by omega) hitems), state_back]
    rfl
  | .document fields, room, d, rest, hroom, hs, hn => by
    simp only [storable, Bool.and_eq_true, decide_eq_true_eq] at hs
    rw [nesting] at hn
    obtain ⟨r, rfl⟩ : ∃ r, room = r + 1 := ⟨room - 1, by omega⟩
    unfold reader
    rw [pack, List.append_assoc, List.append_assoc,
      run_bind_ok (run_read_at (readU32_tag _ (by decide)))]
    simp only [Nat.reduceEqDiff, ↓reduceIte]
    have hfields : ((do fieldsReader r (← Decoder.read Packed.readU64)) : Decoder _).run
        ⟨Packed.u64 fields.length ++ (packFields fields ++ rest), d + 1⟩ =
          .ok (normalFields fields) ⟨rest, d + 1⟩ := by
      rw [run_bind_ok (run_read_at (Packed.readU64_append _ _)),
        Nat.mod_eq_of_lt (pow_two_sixtyfour ▸ hs.1)]
      exact fieldsReader_packFields fields r (d + 1) rest (by omega) hs.2 (by omega)
    rw [run_bind_ok (run_nested_ok (show d + 1 ≤ maxDepth by omega) hfields), state_back]
    rfl

/-- Storable values written one after another read back, each as its normal form. -/
theorem itemsReader_packList : ∀ (items : List Value) (room d : Nat) (rest : Bytes),
    d + room = maxDepth → storableList items = true → nestingOfList items ≤ room →
    (itemsReader room items.length).run ⟨packList items ++ rest, d⟩ =
      .ok (normalList items) ⟨rest, d⟩
  | [], room, d, rest, _, _, _ => by
    unfold itemsReader
    rfl
  | v :: vs, room, d, rest, hroom, hs, hn => by
    simp only [storableList, Bool.and_eq_true] at hs
    rw [nestingOfList] at hn
    rw [List.length_cons, itemsReader, packList, List.append_assoc,
      run_bind_ok (reader_pack v room d _ hroom hs.1 (by omega)),
      run_bind_ok (itemsReader_packList vs room d rest hroom hs.2 (by omega))]
    rfl

/-- Keys and storable values written one after another read back, the values as their normal
forms. -/
theorem fieldsReader_packFields : ∀ (fields : List (String × Value)) (room d : Nat) (rest : Bytes),
    d + room = maxDepth → storableFields fields = true → nestingOfFields fields ≤ room →
    (fieldsReader room fields.length).run ⟨packFields fields ++ rest, d⟩ =
      .ok (normalFields fields) ⟨rest, d⟩
  | [], room, d, rest, _, _, _ => by
    unfold fieldsReader
    rfl
  | (k, v) :: fs, room, d, rest, hroom, hs, hn => by
    simp only [storableFields, Bool.and_eq_true, decide_eq_true_eq] at hs
    rw [nestingOfFields] at hn
    rw [List.length_cons, fieldsReader, packFields, List.append_assoc, List.append_assoc,
      run_bind_ok (run_read_at (Packed.readText_append _ (pow_two_sixtyfour ▸ hs.1.1))),
      run_bind_ok (reader_pack v room d _ hroom hs.1.2 (by omega)),
      run_bind_ok (fieldsReader_packFields fs room d rest hroom hs.2 (by omega))]
    rfl
end

mutual
/-- A storable value that nests deeper than the levels left is refused as too deep. -/
theorem reader_pack_deep : ∀ (v : Value) (room d : Nat) (rest : Bytes), d + room = maxDepth →
    v.storable = true → room < v.nesting →
    ∃ s, (reader room).run ⟨v.pack ++ rest, d⟩ = .error (.tooDeep maxDepth) s
  | .list items, room, d, rest, hroom, hs, hn => by
    simp only [storable, Bool.and_eq_true, decide_eq_true_eq] at hs
    rw [nesting] at hn
    unfold reader
    rw [pack, List.append_assoc, List.append_assoc,
      run_bind_ok (run_read_at (readU32_tag _ (by decide)))]
    simp only [Nat.reduceEqDiff, ↓reduceIte]
    cases room with
    | zero =>
      -- no level is left: the counter stands at `maxDepth` and refuses the level
      exact ⟨_, run_nested_full (show maxDepth < d + 1 by omega)⟩
    | succ r =>
      obtain ⟨s, hitems⟩ := itemsReader_packList_deep items r (d + 1) rest (by omega) hs.2
        (by omega)
      have hread : ((do itemsReader r (← Decoder.read Packed.readU64)) : Decoder _).run
          ⟨Packed.u64 items.length ++ (packList items ++ rest), d + 1⟩ =
            .error (.tooDeep maxDepth) s := by
        rw [run_bind_ok (run_read_at (Packed.readU64_append _ _)),
          Nat.mod_eq_of_lt (pow_two_sixtyfour ▸ hs.1)]
        exact hitems
      exact ⟨_, run_bind_error (run_nested_error (show d + 1 ≤ maxDepth by omega) hread)⟩
  | .document fields, room, d, rest, hroom, hs, hn => by
    simp only [storable, Bool.and_eq_true, decide_eq_true_eq] at hs
    rw [nesting] at hn
    unfold reader
    rw [pack, List.append_assoc, List.append_assoc,
      run_bind_ok (run_read_at (readU32_tag _ (by decide)))]
    simp only [Nat.reduceEqDiff, ↓reduceIte]
    cases room with
    | zero => exact ⟨_, run_nested_full (show maxDepth < d + 1 by omega)⟩
    | succ r =>
      obtain ⟨s, hfields⟩ := fieldsReader_packFields_deep fields r (d + 1) rest (by omega) hs.2
        (by omega)
      have hread : ((do fieldsReader r (← Decoder.read Packed.readU64)) : Decoder _).run
          ⟨Packed.u64 fields.length ++ (packFields fields ++ rest), d + 1⟩ =
            .error (.tooDeep maxDepth) s := by
        rw [run_bind_ok (run_read_at (Packed.readU64_append _ _)),
          Nat.mod_eq_of_lt (pow_two_sixtyfour ▸ hs.1)]
        exact hfields
      exact ⟨_, run_bind_error (run_nested_error (show d + 1 ≤ maxDepth by omega) hread)⟩
  | .null, _, _, _, _, _, hn | .bool _, _, _, _, _, _, hn | .int _, _, _, _, _, _, hn
  | .float _, _, _, _, _, _, hn | .text _, _, _, _, _, _, hn | .bytes _, _, _, _, _, _, hn => by
    simp [nesting] at hn

/-- Among storable values written one after another, the first that nests too deep is
refused. -/
theorem itemsReader_packList_deep : ∀ (items : List Value) (room d : Nat) (rest : Bytes),
    d + room = maxDepth → storableList items = true → room < nestingOfList items →
    ∃ s, (itemsReader room items.length).run ⟨packList items ++ rest, d⟩ =
      .error (.tooDeep maxDepth) s
  | [], _, _, _, _, _, hn => by simp [nestingOfList] at hn
  | v :: vs, room, d, rest, hroom, hs, hn => by
    simp only [storableList, Bool.and_eq_true] at hs
    rw [nestingOfList] at hn
    rw [List.length_cons, itemsReader, packList, List.append_assoc]
    by_cases hv : room < v.nesting
    · -- the head is too deep
      obtain ⟨s, hhead⟩ := reader_pack_deep v room d _ hroom hs.1 hv
      exact ⟨s, run_bind_error hhead⟩
    · -- the head reads back, and the rest holds the value too deep
      obtain ⟨s, hrest⟩ := itemsReader_packList_deep vs room d rest hroom hs.2 (by omega)
      rw [run_bind_ok (reader_pack v room d _ hroom hs.1 (by omega))]
      exact ⟨s, run_bind_error hrest⟩

/-- Among keys and storable values written one after another, the first value that nests too
deep is refused. -/
theorem fieldsReader_packFields_deep : ∀ (fields : List (String × Value)) (room d : Nat)
    (rest : Bytes), d + room = maxDepth → storableFields fields = true →
    room < nestingOfFields fields →
    ∃ s, (fieldsReader room fields.length).run ⟨packFields fields ++ rest, d⟩ =
      .error (.tooDeep maxDepth) s
  | [], _, _, _, _, _, hn => by simp [nestingOfFields] at hn
  | (k, v) :: fs, room, d, rest, hroom, hs, hn => by
    simp only [storableFields, Bool.and_eq_true, decide_eq_true_eq] at hs
    rw [nestingOfFields] at hn
    rw [List.length_cons, fieldsReader, packFields, List.append_assoc, List.append_assoc,
      run_bind_ok (run_read_at (Packed.readText_append _ (pow_two_sixtyfour ▸ hs.1.1)))]
    by_cases hv : room < v.nesting
    · obtain ⟨s, hhead⟩ := reader_pack_deep v room d _ hroom hs.1.2 hv
      exact ⟨s, run_bind_error hhead⟩
    · obtain ⟨s, hrest⟩ := fieldsReader_packFields_deep fs room d rest hroom hs.2 (by omega)
      rw [run_bind_ok (reader_pack v room d _ hroom hs.1.2 (by omega))]
      exact ⟨s, run_bind_error hrest⟩
end

end Value

/-! ## Reading documents -/

namespace Document

open Decoder

variable {d doc : Document} {bs rest : Bytes}

/-- What reading with the counter at zero accepts: the document read and the state it
stopped in. -/
theorem decode_eq_ok_iff :
    decode bs = .ok doc ↔ ∃ s, (reader maxDepth).run ⟨bs, 0⟩ = .ok doc s := by
  unfold decode decodeOn
  split
  next doc' s hrun =>
    simp only [Nat.sub_zero] at hrun
    simp only [Except.ok.injEq, hrun, EStateM.Result.ok.injEq, exists_and_left, exists_eq',
      and_true]
  next e s hrun =>
    simp only [Nat.sub_zero] at hrun
    simp [hrun]

/-- A storable document within `maxDepth` reads back, its fields in key order. -/
theorem decode_pack (hs : d.storable = true) (hd : d.tooDeep = false) (rest : Bytes) :
    decode (d.pack ++ rest) = .ok (ofFields (Value.normalFields d)) := by
  simp only [storable, Bool.and_eq_true, decide_eq_true_eq] at hs
  have hn : Value.nestingOfFields d ≤ maxDepth :=
    Value.nestingOfFields_le_iff.2 (tooDeep_eq_false_iff.1 hd)
  refine decode_eq_ok_iff.2 ⟨⟨rest, 0⟩, ?_⟩
  unfold reader
  rw [pack, List.append_assoc, run_bind_ok (run_read_at (Packed.readU64_append _ _)),
    Nat.mod_eq_of_lt (Value.pow_two_sixtyfour ▸ hs.1),
    run_bind_ok (Value.fieldsReader_packFields d maxDepth 0 rest (by omega) hs.2 hn)]
  rfl

/-- A storable document deeper than `maxDepth` is refused as too deep, whatever follows it. -/
theorem decode_pack_deep (hs : d.storable = true) (hd : d.tooDeep = true) (rest : Bytes) :
    decode (d.pack ++ rest) = .error (.badDocument (.tooDeep maxDepth)) := by
  simp only [storable, Bool.and_eq_true, decide_eq_true_eq] at hs
  have hn : maxDepth < Value.nestingOfFields d := by
    refine Nat.lt_of_not_le fun hle => ?_
    have hfalse := tooDeep_eq_false_iff.2 (Value.nestingOfFields_le_iff.1 hle)
    rw [hd] at hfalse
    cases hfalse
  obtain ⟨s, hfields⟩ :=
    Value.fieldsReader_packFields_deep d maxDepth 0 rest (by omega) hs.2 hn
  have hrun : (reader (maxDepth - 0)).run ⟨d.pack ++ rest, 0⟩ = .error (.tooDeep maxDepth) s := by
    unfold reader
    rw [pack, List.append_assoc, run_bind_ok (run_read_at (Packed.readU64_append _ _)),
      Nat.mod_eq_of_lt (Value.pow_two_sixtyfour ▸ hs.1)]
    exact run_bind_error hfields
  unfold decode decodeOn
  rw [hrun]

/-- What reading a document with the counter at zero returns: an ordered map nesting at most
`maxDepth` levels. -/
theorem yields_reader :
    Yields (reader maxDepth) fun d => Value.nestingOfFields d ≤ maxDepth ∧ d.ascending = true :=
  .bind (.read _) fun n _ => .bind (Value.yields_fieldsReader maxDepth n) fun fs hfs =>
    .pure ⟨Nat.le_trans (Value.nestingOfFields_ofFields_le fs) hfs.1,
      Value.ascending_ofFields hfs.2⟩

/-- No document reading accepts nests deeper than `maxDepth`. -/
theorem tooDeep_of_decode (h : decode bs = .ok doc) : doc.tooDeep = false := by
  obtain ⟨s, hrun⟩ := decode_eq_ok_iff.1 h
  exact tooDeep_eq_false_iff.2 (Value.nestingOfFields_le_iff.1 (yields_reader _ _ _ hrun).1)

/-- Every document reading accepts is an ordered map, in whatever order the stored form lists
its keys, the last of equal keys kept. -/
theorem ascending_of_decode (h : decode bs = .ok doc) : doc.ascending = true := by
  obtain ⟨s, hrun⟩ := decode_eq_ok_iff.1 h
  exact (yields_reader _ _ _ hrun).2

/-- A document a program holds, written, reads back as itself when every length in it fits
the packed form. -/
theorem decode_encode (d : DocumentMap) (hs : d.fields.storable = true)
    (he : d.fields.encode = .ok bs) : decode bs = .ok d.fields := by
  obtain ⟨hasc, hord⟩ := Bool.and_eq_true _ _ ▸ d.ascending
  cases hd : d.fields.tooDeep
  · rw [encode_of_shallow hd, Except.ok.injEq] at he
    subst he
    -- reading puts the fields in key order, which leaves an ordered map as it is
    have hback := decode_pack hs hd []
    rw [List.append_nil, Value.normalFields_of_ordered d.fields hord,
      ofFields_of_ascending (of_decide_eq_true hasc)] at hback
    exact hback
  · rw [encode_of_deep hd] at he
    cases he

end Document

namespace Bucket

variable {b : Bucket} {t t' : Table} {key value : Bytes} {u : Unit}

/-- A value stored with no meta reads back as itself, with no meta. -/
theorem get_putPlainIn (h : b.putPlainIn key value t = .ok (u, t')) :
    b.get t' key = .ok (value, none) := by
  unfold putPlainIn at h
  obtain ⟨_, t₁, -, hset⟩ := bind_run_eq_ok.1 h
  simp only [Txn.set_run, Except.ok.injEq, Prod.mk.injEq] at hset
  obtain ⟨-, rfl⟩ := hset
  exact get_of_inline (by rw [Table.get?_insert, if_pos rfl]) (decode_plain value)
    fun _ hm => by cases hm

end Bucket

namespace Database

/-- A document a program holds reads back from a store that accepted it as itself, when every
length in it fits the packed form. -/
theorem getDocument_putDocument {db db' : Database} {b : Bucket} {key : Bytes} (d : DocumentMap)
    (hs : d.fields.storable = true) (h : db.putDocument b key d.fields = .ok db') :
    db'.getDocument b key = .ok d.fields := by
  obtain ⟨encoded, henc, h⟩ := putDocument_eq_ok h
  obtain ⟨u, hupd⟩ := put_eq_ok h
  obtain ⟨-, t', hput, rfl⟩ := update_eq_ok.1 hupd
  unfold getDocument
  rw [Bucket.putIn_none] at hput
  rw [Bucket.get_putPlainIn hput]
  exact Document.decode_encode d hs henc

end Database

/-- The document codec: writing succeeds exactly on documents with no list or document below
level `maxDepth`; a well-formed document it wrote reads back as itself, also from a store
that accepted it; reading refuses every packed document deeper than `maxDepth`, and accepts
nothing deeper; and every reading, however it ends, leaves the reading thread's nesting
counter as it found it. -/
theorem document_codec_exact :
    (∀ d : Document, (∃ bs, d.encode = .ok bs) ↔ ∀ f ∈ d, ∀ ℓ, f.2.Opens ℓ → ℓ ≤ maxDepth) ∧
    (∀ d : Document, d.wellFormed = true → ∀ bs, d.encode = .ok bs →
      Document.decode bs = .ok d ∧
      ∀ (db db' : Database) (b : Bucket) (key : Bytes),
        db.putDocument b key d = .ok db' → db'.getDocument b key = .ok d) ∧
    (∀ d : Document, d.storable = true → d.tooDeep = true → ∀ rest,
      Document.decode (d.pack ++ rest) = .error (.badDocument (.tooDeep maxDepth))) ∧
    (∀ bs doc, Document.decode bs = .ok doc → doc.tooDeep = false) ∧
    (∀ depth bs, (Document.decodeOn depth bs).2 = depth) := by
  refine ⟨fun d => ?_, fun d hw bs he => ?_, fun d hs hd rest => Document.decode_pack_deep hs hd rest,
    fun bs doc h => Document.tooDeep_of_decode h, Document.decodeOn_depth⟩
  · constructor
    · rintro ⟨bs, he⟩
      exact (Document.encode_eq_ok_iff.1 he).2
    · intro hall
      exact ⟨d.pack, Document.encode_eq_ok_iff.2 ⟨rfl, hall⟩⟩
  · -- a well-formed document is one a program holds
    obtain ⟨hs, hasc⟩ := Document.wellFormed_iff.1 hw
    exact ⟨Document.decode_encode ⟨d, hasc⟩ hs he,
      fun db db' b key hput => Database.getDocument_putDocument ⟨d, hasc⟩ hs hput⟩

/-- A list nested `n` levels deep around `null`. -/
def Value.nestedList (n : Nat) : Value := Nat.repeat (fun v => .list [v]) n .null

/-- The codec on two documents: a shallow one reads back as written, and one whose list nests
`maxDepth + 1` levels is refused as too deep. -/
theorem document_codec_samples :
    Document.decode (Document.pack [("x", .list [.null])]) = .ok [("x", .list [.null])] ∧
    Document.decode (Document.pack [("x", Value.nestedList (maxDepth + 1))] ++ []) =
      .error (.badDocument (.tooDeep maxDepth)) :=
  ⟨(document_codec_exact.2.1 [("x", .list [.null])] (by decide) _
      (Document.encode_of_shallow (by rw [Document.tooDeep_eq_any]; decide))).1,
    document_codec_exact.2.2.1 [("x", Value.nestedList (maxDepth + 1))] (by decide +kernel)
      (by rw [Document.tooDeep_eq_any]; decide +kernel) []⟩

end ArchiveStore
