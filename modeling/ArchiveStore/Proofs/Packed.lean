import ArchiveStore.Record.Meta
import ArchiveStore.Proofs.Utf8

/-!
# Reading back the packed layout

Every reader of the packed layout is a left inverse of its writer, and reads nothing but what
the writer can produce:

* `read*_append`: a reader run on what its writer wrote, followed by anything, returns the
  value and leaves the rest. Lengths are written in eight bytes, so a byte string, a text or a
  list must have fewer than `2 ^ 64` bytes or items for this.
* `read*_eq_ok`: whatever a reader accepts is its writer's output followed by what it left.
  For texts this rests on `Utf8.eq_ofString_of_decode`: only the encoding of a text decodes.

## Main results

* `Meta.reader_pack` and `Meta.eq_pack_of_reader`: the meta reader reads exactly the packed
  metas, the first under a bound on the packed length.
* `Meta.parse_eq_ok_iff`: on an input shorter than `2 ^ 64` bytes, the meta reader accepts
  exactly the inputs that start with a packed meta.
-/

namespace ArchiveStore

/-! ## Fixed-width numbers -/

namespace Bytes

/-- A number is below 256 to the power of its width in bytes. -/
theorem toNatLE_lt (bs : Bytes) : toNatLE bs < Nat.pow 256 bs.length := by
  induction bs with
  | nil => simp [toNatLE]
  | cons b bs ih =>
    have hb := b.toNat_lt
    simp only [toNatLE, List.length_cons] at ih ⊢
    simp only [Nat.pow_eq] at ih ⊢
    omega

/-- Writing back the number of some bytes gives the same bytes. -/
theorem ofNatLE_toNatLE (bs : Bytes) : ofNatLE bs.length (toNatLE bs) = bs := by
  induction bs with
  | nil => rfl
  | cons b bs ih =>
    have hb := b.toNat_lt
    simp only [List.length_cons, ofNatLE, toNatLE]
    rw [show (b.toNat + 256 * toNatLE bs) / 256 = toNatLE bs by omega, ih]
    congr 1
    exact Utf8.uint8_ofNat_eq (by omega)

/-- Big-endian: writing back the number of some bytes gives the same bytes. -/
theorem ofNatBE_toNatBE (bs : Bytes) : ofNatBE bs.length (toNatBE bs) = bs := by
  rw [ofNatBE, toNatBE, ← List.length_reverse, ofNatLE_toNatLE, List.reverse_reverse]

/-- Big-endian: a number is below 256 to the power of its width in bytes. -/
theorem toNatBE_lt (bs : Bytes) : toNatBE bs < Nat.pow 256 bs.length := by
  rw [toNatBE, ← List.length_reverse]
  exact toNatLE_lt _

end Bytes

/-! ## Steps that may fail

Readers of the packed layout, and the store's transactions, are steps over a state that may
fail. A sequence of two such steps is taken apart by the three lemmas below, never by unfolding
`bind`.
-/

/-- A computation followed by another succeeds exactly when the first does and the second
succeeds on its result. -/
theorem Except.bind_eq_ok {ε α β : Type} {x : Except ε α} {f : α → Except ε β} {b : β} :
    (x >>= f) = .ok b ↔ ∃ a, x = .ok a ∧ f a = .ok b := by
  cases x <;> simp [bind, Except.bind]

/-- A computation run for its result alone, paired with nothing, succeeds with what the
computation gives. -/
theorem Except.eq_ok_of_unit_pair {ε β : Type} {x : Except ε β} {u : Unit} {b : β}
    (h : (do return ((), ← x) : Except ε (Unit × β)) = .ok (u, b)) : x = .ok b := by
  obtain ⟨b', hx, hret⟩ := Except.bind_eq_ok.1 h
  obtain ⟨-, rfl⟩ := Prod.mk.inj (Except.ok.inj hret)
  exact hx

section StateSteps

variable {σ ε α β : Type} {x : StateT σ (Except ε) α} {f : α → StateT σ (Except ε) β}
  {s s₁ s' : σ} {a : α} {b : β}

/-- A step that succeeds hands its result and the state it left to the next. -/
theorem bind_run_eq_ok :
    (x >>= f) s = .ok (b, s') ↔ ∃ a s₁, x s = .ok (a, s₁) ∧ f a s₁ = .ok (b, s') := by
  show (do let (a, t) ← x s; f a t) = _ ↔ _
  cases x s with
  | error e => simp [bind, Except.bind]
  | ok p =>
    obtain ⟨a, t⟩ := p
    exact ⟨fun h => ⟨a, t, rfl, h⟩, fun ⟨_, _, hp, h⟩ => by cases hp; exact h⟩

/-- After a step that succeeded, the next runs on the state it left. -/
theorem bind_run_of_ok (h : x s = .ok (a, s₁)) : (x >>= f) s = f a s₁ := by
  show (do let (a, t) ← x s; f a t) = _
  rw [h]
  rfl

/-- A sequence fails where its first step fails, or where the rest fails after a first step
that succeeded. -/
theorem bind_run_eq_error {e : ε} :
    (x >>= f) s = .error e ↔ x s = .error e ∨ ∃ a s₁, x s = .ok (a, s₁) ∧ f a s₁ = .error e := by
  show (do let (a, t) ← x s; f a t) = _ ↔ _
  cases x s with
  | error e' => simp [bind, Except.bind]
  | ok p =>
    obtain ⟨a, t⟩ := p
    exact ⟨fun h => .inr ⟨a, t, rfl, h⟩, fun h => by
      rcases h with h | ⟨_, _, hp, h⟩
      · cases h
      · cases hp
        exact h⟩

/-- After a step that failed, the sequence fails with the same error. -/
theorem bind_run_of_error {e : ε} (h : x s = .error e) : (x >>= f) s = .error e := by
  show (do let (a, t) ← x s; f a t) = _
  rw [h]
  rfl

end StateSteps

namespace Packed

variable {α β : Type}

/-! ## Fields -/

/-- Reading `n` bytes from bytes that start with `n` bytes. -/
theorem readFixed_append {pre : Bytes} (rest : Bytes) {n : Nat} (h : pre.length = n) :
    readFixed n (pre ++ rest) = .ok (pre, rest) := by
  simp [readFixed, ← h]

/-- What `readFixed` read is the first `n` bytes of its input. -/
theorem readFixed_eq_ok {n : Nat} {s pre rest : Bytes} (h : readFixed n s = .ok (pre, rest)) :
    s = pre ++ rest ∧ pre.length = n := by
  unfold readFixed at h
  split at h
  · cases h
    exact ⟨(List.take_append_drop n s).symm, by simp; omega⟩
  · cases h

/-- A 32-bit word reads back as its value modulo `2 ^ 32`. -/
theorem readU32_append (n : Nat) (rest : Bytes) :
    readU32 (u32 n ++ rest) = .ok (n % Nat.pow 256 4, rest) := by
  rw [readU32, u32, bind_run_of_ok (readFixed_append rest (Bytes.length_ofNatLE 4 n)),
    ← Bytes.toNatLE_ofNatLE]
  rfl

/-- A 64-bit word reads back as its value modulo `2 ^ 64`. -/
theorem readU64_append (n : Nat) (rest : Bytes) :
    readU64 (u64 n ++ rest) = .ok (n % Nat.pow 256 8, rest) := by
  rw [readU64, u64, bind_run_of_ok (readFixed_append rest (Bytes.length_ofNatLE 8 n)),
    ← Bytes.toNatLE_ofNatLE]
  rfl

/-- What `readU64` read is a 64-bit word at the front of its input. -/
theorem readU64_eq_ok {s rest : Bytes} {n : Nat} (h : readU64 s = .ok (n, rest)) :
    s = u64 n ++ rest ∧ n < Nat.pow 256 8 := by
  rw [readU64, bind_run_eq_ok] at h
  obtain ⟨bs, t, hfix, hret⟩ := h
  obtain ⟨rfl, hlen⟩ := readFixed_eq_ok hfix
  cases hret
  refine ⟨?_, hlen ▸ Bytes.toNatLE_lt bs⟩
  rw [u64, ← hlen, Bytes.ofNatLE_toNatLE]


/-- A signed 64-bit word reads back as itself. -/
theorem readI64_append (x : Int64) (rest : Bytes) : readI64 (i64 x ++ rest) = .ok (x, rest) := by
  rw [readI64, i64, bind_run_of_ok (readU64_append _ rest)]
  have hx : x.toUInt64.toNat % Nat.pow 256 8 = x.toUInt64.toNat :=
    Nat.mod_eq_of_lt x.toUInt64.toNat_lt
  simp only [hx, UInt64.ofNat_toNat, Int64.toInt64_toUInt64]
  rfl

/-- What `readI64` read is a signed 64-bit word at the front of its input. -/
theorem readI64_eq_ok {s rest : Bytes} {x : Int64} (h : readI64 s = .ok (x, rest)) :
    s = i64 x ++ rest := by
  rw [readI64, bind_run_eq_ok] at h
  obtain ⟨n, t, hword, hret⟩ := h
  obtain ⟨rfl, hn⟩ := readU64_eq_ok hword
  cases hret
  rw [i64, UInt64.toUInt64_toInt64, UInt64.toNat_ofNat', Nat.mod_eq_of_lt hn]

/-- A byte string of fewer than `2 ^ 64` bytes reads back as itself. -/
theorem readBytes_append {bs : Bytes} (rest : Bytes) (h : bs.length < Nat.pow 256 8) :
    readBytes (bytes bs ++ rest) = .ok (bs, rest) := by
  rw [readBytes, bytes, List.append_assoc, bind_run_of_ok (readU64_append _ _), Nat.mod_eq_of_lt h]
  exact readFixed_append rest rfl

/-- What `readBytes` read is a byte string with its length in front. -/
theorem readBytes_eq_ok {s rest bs : Bytes} (h : readBytes s = .ok (bs, rest)) :
    s = bytes bs ++ rest ∧ bs.length < Nat.pow 256 8 := by
  rw [readBytes, bind_run_eq_ok] at h
  obtain ⟨n, t, hword, hfix⟩ := h
  obtain ⟨rfl, hn⟩ := readU64_eq_ok hword
  obtain ⟨rfl, rfl⟩ := readFixed_eq_ok hfix
  exact ⟨by rw [bytes, List.append_assoc], hn⟩


/-- Taking exactly the first `n` bytes, as a text's reader does. -/
theorem take_exact_append {pre : Bytes} (rest : Bytes) {n : Nat} (e : PackError)
    (h : pre.length = n) :
    (if n ≤ (pre ++ rest).length then Except.ok ((pre ++ rest).take n, (pre ++ rest).drop n)
      else .error e : Except PackError (Bytes × Bytes)) = .ok (pre, rest) := by
  simp [← h]

/-- A text whose encoding has fewer than `2 ^ 64` bytes reads back as itself. -/
theorem readText_append {s : String} (rest : Bytes)
    (h : (Bytes.ofString s).length < Nat.pow 256 8) :
    readText (text s ++ rest) = .ok (s, rest) := by
  rw [readText, text, bytes, List.append_assoc, bind_run_of_ok (readU64_append _ _),
    Nat.mod_eq_of_lt h, bind_run_of_ok (take_exact_append rest .lengthPastEnd rfl)]
  simp only [Utf8.decode_ofString]
  rfl

/-- What `readText` read is a text with the length of its encoding in front. -/
theorem readText_eq_ok {s rest : Bytes} {t : String} (h : readText s = .ok (t, rest)) :
    s = text t ++ rest ∧ (Bytes.ofString t).length < Nat.pow 256 8 := by
  rw [readText, bind_run_eq_ok] at h
  obtain ⟨n, s1, hword, h⟩ := h
  obtain ⟨rfl, hn⟩ := readU64_eq_ok hword
  rw [bind_run_eq_ok] at h
  obtain ⟨raw, s2, htake, hdecode⟩ := h
  -- the length must fit what is left, and the bytes taken must be UTF-8
  have hfit : n ≤ s1.length :=
    Decidable.byContradiction fun hlong => by simp [hlong] at htake
  simp only [hfit, if_true, Except.ok.injEq, Prod.mk.injEq] at htake
  obtain ⟨rfl, rfl⟩ := htake
  cases hd : Utf8.decode? (s1.take n) with
  | error e => simp [hd, fail] at hdecode
  | ok t' =>
    simp only [hd] at hdecode
    cases hdecode
    have hraw := Utf8.eq_ofString_of_decode hd
    have hlen : (Bytes.ofString t).length = n := by rw [← hraw]; simp; omega
    refine ⟨?_, hlen ▸ hn⟩
    rw [text, bytes, hlen, ← hraw, List.append_assoc, List.take_append_drop]


section Lists

variable {item : Reader α} {write : α → Bytes}

/-- Items written one after the other read back, when each item does. -/
theorem readMany_append (xs : List α) (rest : Bytes)
    (hitem : ∀ x ∈ xs, ∀ r, item (write x ++ r) = .ok (x, r)) :
    readMany item xs.length (xs.flatMap write ++ rest) = .ok (xs, rest) := by
  induction xs with
  | nil => rfl
  | cons x xs ih =>
    rw [List.length_cons, readMany, List.flatMap_cons, List.append_assoc,
      bind_run_of_ok (hitem x List.mem_cons_self _),
      bind_run_of_ok (ih fun y hy => hitem y (List.mem_cons_of_mem x hy))]
    rfl

/-- What `readMany` read is its items written one after the other, when each item's reader
reads only what the item's writer wrote. -/
theorem readMany_eq_ok (hitem : ∀ {s r x}, item s = .ok (x, r) → s = write x ++ r) :
    ∀ {n : Nat} {s rest : Bytes} {xs : List α}, readMany item n s = .ok (xs, rest) →
      s = xs.flatMap write ++ rest ∧ xs.length = n
  | 0, s, rest, xs, h => by
    cases h
    exact ⟨rfl, rfl⟩
  | n + 1, s, rest, xs, h => by
    rw [readMany, bind_run_eq_ok] at h
    obtain ⟨x, t, hx, h⟩ := h
    rw [bind_run_eq_ok] at h
    obtain ⟨ys, u, hys, hret⟩ := h
    cases hret
    obtain ⟨rfl, hlen⟩ := readMany_eq_ok hitem hys
    exact ⟨by rw [hitem hx, List.flatMap_cons, List.append_assoc], by simp [hlen]⟩

/-- A list of fewer than `2 ^ 64` items reads back, when each item does. -/
theorem readList_append (xs : List α) (rest : Bytes) (hlen : xs.length < Nat.pow 256 8)
    (hitem : ∀ x ∈ xs, ∀ r, item (write x ++ r) = .ok (x, r)) :
    readList item (list write xs ++ rest) = .ok (xs, rest) := by
  rw [readList, list, List.append_assoc, bind_run_of_ok (readU64_append _ _), Nat.mod_eq_of_lt hlen]
  exact readMany_append xs rest hitem

/-- What `readList` read is a list with its length in front. -/
theorem readList_eq_ok (hitem : ∀ {s r x}, item s = .ok (x, r) → s = write x ++ r)
    {s rest : Bytes} {xs : List α} (h : readList item s = .ok (xs, rest)) :
    s = list write xs ++ rest ∧ xs.length < Nat.pow 256 8 := by
  rw [readList, bind_run_eq_ok] at h
  obtain ⟨n, t, hword, hmany⟩ := h
  obtain ⟨rfl, hn⟩ := readU64_eq_ok hword
  obtain ⟨rfl, rfl⟩ := readMany_eq_ok hitem hmany
  exact ⟨by rw [list, List.append_assoc], hn⟩

end Lists


/-- Byte strings written one after the other take at least a byte for each, and at least
the length of each. -/
theorem le_length_flatMap_bytes (xs : List Bytes) :
    xs.length ≤ (xs.flatMap bytes).length ∧ ∀ c ∈ xs, c.length ≤ (xs.flatMap bytes).length := by
  induction xs with
  | nil => simp
  | cons x xs ih =>
    have hx : (bytes x).length = 8 + x.length := by simp [bytes, u64]
    rw [List.flatMap_cons, List.length_append, hx, List.length_cons]
    refine ⟨by omega, fun c hc => ?_⟩
    rcases List.mem_cons.1 hc with rfl | hc
    · omega
    · have := ih.2 c hc
      omega

end Packed

namespace Meta

/-- A meta whose packed form has fewer than `2 ^ 64` bytes reads back as itself. -/
theorem reader_pack (m : Meta) (rest : Bytes) (h : m.pack.length < Nat.pow 256 8) :
    reader (m.pack ++ rest) = .ok (m, rest) := by
  have hchunks := Packed.le_length_flatMap_bytes m.chunks
  simp only [pack, Packed.text, Packed.bytes, Packed.u64, Packed.i64, Packed.list,
    List.length_append, Bytes.length_ofNatLE] at h
  rw [reader, pack, List.append_assoc, List.append_assoc, List.append_assoc,
    bind_run_of_ok (Packed.readText_append _ (by omega)),
    bind_run_of_ok (Packed.readI64_append _ _), bind_run_of_ok (Packed.readU64_append _ _),
    bind_run_of_ok (Packed.readList_append m.chunks rest (by omega)
      fun c hc r => Packed.readBytes_append r (by have := hchunks.2 c hc; omega))]
  simp only [Nat.mod_eq_of_lt m.totalLength.toNat_lt, UInt64.ofNat_toNat]
  rfl

/-- What the meta reader read is a packed meta at the front of its input. -/
theorem eq_pack_of_reader {s rest : Bytes} {m : Meta} (h : reader s = .ok (m, rest)) :
    s = m.pack ++ rest := by
  rw [reader, bind_run_eq_ok] at h
  obtain ⟨mime, s1, hmime, h⟩ := h
  rw [bind_run_eq_ok] at h
  obtain ⟨chunkSize, s2, hsize, h⟩ := h
  rw [bind_run_eq_ok] at h
  obtain ⟨total, s3, htotal, h⟩ := h
  rw [bind_run_eq_ok] at h
  obtain ⟨chunks, s4, hchunks, hret⟩ := h
  cases hret
  obtain ⟨rfl, -⟩ := Packed.readText_eq_ok hmime
  obtain rfl := Packed.readI64_eq_ok hsize
  obtain ⟨rfl, hlt⟩ := Packed.readU64_eq_ok htotal
  obtain ⟨rfl, -⟩ := Packed.readList_eq_ok (fun h => (Packed.readBytes_eq_ok h).1) hchunks
  rw [pack]
  simp only [UInt64.toNat_ofNat', List.append_assoc]
  rw [Nat.mod_eq_of_lt hlt]

/-- On an input shorter than `2 ^ 64` bytes, the meta reader accepts exactly the inputs that
start with a packed meta, and returns that meta. -/
theorem parse_eq_ok_iff {s : Bytes} {m : Meta} (h : s.length < Nat.pow 256 8) :
    reader.parse s = .ok m ↔ ∃ tail, s = m.pack ++ tail := by
  constructor
  · intro hparse
    cases hr : reader s with
    | error e =>
      simp [Packed.Reader.parse, StateT.run, hr, Except.map] at hparse
    | ok p =>
      obtain ⟨m', tail⟩ := p
      simp only [Packed.Reader.parse, StateT.run, hr, Except.map, Except.ok.injEq] at hparse
      subst hparse
      exact ⟨tail, eq_pack_of_reader hr⟩
  · rintro ⟨tail, rfl⟩
    have hpack : m.pack.length < Nat.pow 256 8 := by
      rw [List.length_append] at h
      omega
    simp [Packed.Reader.parse, StateT.run, reader_pack m tail hpack, Except.map]

end Meta

end ArchiveStore
