import ArchiveStore.Bucket.Read
import ArchiveStore.Proofs.Envelope
import Mathlib.Data.List.Forall2

/-!
# Reading chunked values

A chunked value is stored as a meta listing chunk keys, each naming a plain record of the
namespace's chunk bucket. The full read `Bucket.get` checks the meta's layout, reads every
chunk and joins them, and accepts the join only if it is exactly as long as the meta says. The
ranged read `Bucket.getAt` trusts the layout instead: it starts at chunk `offset / size` and
skips `offset % size` bytes of it, as if every chunk but the last held exactly `size` bytes.

The layout check alone does not make that so: chunks planted by raw writes may be uneven and
still join to the right length. The full read accepts such a value, and the ranged read, meant
to copy the slice of that same value, then copies from the wrong chunk.

## Main results

* `Word.refuses_iff`: on a length that is a word, the layout check's test against bounds
  stopped at the largest word is the test against the exact products, whichever of them
  overflows.
* `Meta.layout_eq_ok`: the saturated bounds of the layout check decide the exact ones,
  `(n - 1) * size < total ≤ n * size`; `chunk_layout_exact_bounds` says it over the integers,
  for a non-empty chunk list, with every refusal a decoding failure.
* `Bucket.get_chunked_eq_ok`: a chunked entry reads back exactly when its layout passes, every
  chunk it lists exists and decodes, and the chunks join to the meta's length.
* `Bucket.getAt_chunked_agrees_iff`: on a chunked entry that reads back, every ranged read up
  to the end slices the value exactly when every chunk but the last is full
  (`Bucket.FullChunks`).
* `ranged_read_agrees_with_read`: the above together with the inline and past-the-end cases,
  and `ranged_read_misses_short_chunk`: a store the full read accepts on which the ranged read
  copies the wrong bytes.
-/

namespace ArchiveStore

/-! ## The layout check -/

namespace Word

/-- A product that fits a word is kept. -/
theorem mulSat_of_le {a b : Nat} (h : a * b ≤ max) : mulSat a b = a * b :=
  Nat.min_eq_left h

/-- A product beyond the largest word stops at it. -/
theorem mulSat_of_lt {a b : Nat} (h : max < a * b) : mulSat a b = max :=
  Nat.min_eq_right (Nat.le_of_lt h)

/-- A word lies at or below a product stopped at the largest word exactly when it lies at or
below the product itself: a product beyond the largest word is above every word either way. -/
theorem le_mulSat_iff {a b x : Nat} (hx : x ≤ max) : x ≤ mulSat a b ↔ x ≤ a * b := by
  by_cases h : a * b ≤ max
  · rw [mulSat_of_le h]
  · rw [mulSat_of_lt (Nat.lt_of_not_le h)]
    exact ⟨fun _ => by omega, fun _ => hx⟩

/-- The refusal test of the layout check, on a length that is a word: at or below the lower
bound or above the upper one, both computed with saturation, is the same test on the exact
products, whichever of them passes the largest word. -/
theorem refuses_iff {n size total : Nat} (hx : total ≤ max) :
    (total ≤ mulSat (subSat n 1) size ∨ total > mulSat n size) ↔
      (total ≤ (n - 1) * size ∨ n * size < total) := by
  rw [le_mulSat_iff hx, gt_iff_lt, ← Nat.not_le, le_mulSat_iff hx, Nat.not_le, subSat]

end Word

namespace Meta

/-- The chunk size a meta asks for, as a number; zero for a size that is not positive. -/
def chunkBytes (m : Meta) : Nat := m.chunkSize.toInt.toNat

/-- The split size is the chunk size, for a positive one. -/
theorem splitSize_eq_some {m : Meta} {size : Nat} :
    m.splitSize = .ok (some size) ↔ 0 < m.chunkSize.toInt ∧ size = m.chunkBytes := by
  unfold splitSize chunkBytes
  by_cases h0 : m.chunkSize = 0
  · simp [h0]
  by_cases hneg : m.chunkSize < 0
  · have : m.chunkSize.toInt < 0 := Int64.lt_iff_toInt_lt.1 hneg
    simp [h0, hneg]
    omega
  · have hpos : 0 < m.chunkSize.toInt := by
      have h1 : ¬ m.chunkSize.toInt < 0 := fun h => hneg (Int64.lt_iff_toInt_lt.2 h)
      have h2 : m.chunkSize.toInt ≠ 0 := fun h => h0 (Int64.toInt_inj.1 h)
      omega
    simp [h0, hneg, hpos, eq_comm]

/-- The layout check passes exactly on a positive chunk size and a length that `n` chunks of
that size hold with no chunk to spare, `(n - 1) * size < total ≤ n * size`, the products taken
without bound: a length is a 64-bit word, so stopping the bounds at the largest word changes
no verdict. -/
theorem layout_eq_ok {m : Meta} {total size : Nat} :
    m.layout = .ok (total, size) ↔
      0 < m.chunkSize.toInt ∧ size = m.chunkBytes ∧ total = m.totalLength.toNat ∧
      (m.chunks.length - 1) * size < total ∧ total ≤ m.chunks.length * size := by
  unfold layout
  have hmax : m.totalLength.toNat ≤ Word.max := by
    have hsize : Word.max = UInt64.size - 1 := rfl
    have := m.totalLength.toNat_lt_size
    omega
  split
  case h_1 sz hsplit =>
    rw [splitSize_eq_some] at hsplit
    obtain ⟨hpos, rfl⟩ := hsplit
    dsimp only
    split
    case isTrue hbad =>
      rw [Word.refuses_iff hmax] at hbad
      simp only [reduceCtorEq, false_iff, not_and]
      intro _ hsize htotal
      subst hsize htotal
      omega
    case isFalse hgood =>
      rw [Word.refuses_iff hmax] at hgood
      simp only [Except.ok.injEq, Prod.mk.injEq]
      constructor
      · rintro ⟨rfl, rfl⟩
        exact ⟨hpos, rfl, rfl, by omega, by omega⟩
      · rintro ⟨_, rfl, rfl, _, _⟩
        exact ⟨rfl, rfl⟩
  case h_2 hnot =>
    simp only [reduceCtorEq, false_iff, not_and]
    intro hpos hsize
    exact absurd (splitSize_eq_some.2 ⟨hpos, hsize⟩) (hnot size)

/-- The layout check refuses only with decoding failures. -/
theorem layout_error_kind {m : Meta} {e : StoreError} (h : m.layout = .error e) :
    e.kind = .decode := by
  unfold layout at h
  split at h
  · dsimp only at h
    split at h
    · cases h
      rfl
    · cases h
  · cases h
    rfl

/-- The exact bounds on the length of a chunked value, over the integers: a chunk size
`C ≥ 1`, and `(n - 1) * C < total ≤ n * C` for `n` chunks. -/
def ExactLayout (m : Meta) : Prop :=
  1 ≤ m.chunkSize.toInt ∧
    ((m.chunks.length : Int) - 1) * m.chunkSize.toInt < (m.totalLength.toNat : Int) ∧
    (m.totalLength.toNat : Int) ≤ m.chunks.length * m.chunkSize.toInt

instance : DecidablePred ExactLayout := fun _ =>
  inferInstanceAs (Decidable (_ ∧ _ ∧ _))

/-- With at least one chunk, the integer bounds are the bounds of `layout_eq_ok` in the
naturals. -/
theorem exactLayout_iff {m : Meta} (hne : m.chunks ≠ []) :
    m.ExactLayout ↔ 0 < m.chunkSize.toInt ∧
      (m.chunks.length - 1) * m.chunkBytes < m.totalLength.toNat ∧
      m.totalLength.toNat ≤ m.chunks.length * m.chunkBytes := by
  obtain ⟨k, hk⟩ : ∃ k, m.chunks.length = k + 1 :=
    Nat.exists_eq_succ_of_ne_zero (by simpa using hne)
  unfold ExactLayout chunkBytes
  rw [hk, Nat.add_sub_cancel]
  by_cases hC : 0 < m.chunkSize.toInt
  · -- a positive size is a natural number, and the products can be taken there
    obtain ⟨c, hc⟩ : ∃ c : Nat, m.chunkSize.toInt = c :=
      ⟨_, (Int.toNat_of_nonneg (Int.le_of_lt hC)).symm⟩
    rw [hc, Int.toNat_natCast]
    push_cast
    rw [Int.add_sub_cancel]
    exact and_congr (by omega) (and_congr (by norm_cast) (by norm_cast))
  · -- a size that is not positive fails both sides
    refine iff_of_false (fun h => ?_) (fun h => hC h.1)
    have := h.1
    omega

end Meta

/-- The layout check of a chunked value decides the exact bounds on its length. With `n ≥ 1`
chunks and a chunk size `C`, it passes, giving back the length and `C`, exactly when `C ≥ 1`
and `(n - 1) * C < total ≤ n * C` over the integers, and otherwise refuses with a decoding
failure: the bounds it computes as 64-bit words stopped at the largest word accept and
refuse the same lengths as the exact ones, for every `n` and every `C` up to `2^63 - 1`. -/
theorem chunk_layout_exact_bounds (m : Meta) (hne : m.chunks ≠ []) :
    (m.ExactLayout → m.layout = .ok (m.totalLength.toNat, m.chunkBytes)) ∧
      (¬ m.ExactLayout → ∃ e, m.layout = .error e ∧ e.kind = .decode) := by
  constructor
  · intro hx
    obtain ⟨hpos, hlow, hhigh⟩ := (Meta.exactLayout_iff hne).1 hx
    exact Meta.layout_eq_ok.2 ⟨hpos, rfl, rfl, hlow, hhigh⟩
  · intro hx
    cases hl : m.layout with
    | error e => exact ⟨e, rfl, Meta.layout_error_kind hl⟩
    | ok r =>
      -- a layout that passes meets the exact bounds
      obtain ⟨total, size⟩ := r
      obtain ⟨hpos, rfl, rfl, hlow, hhigh⟩ := Meta.layout_eq_ok.1 hl
      exact absurd ((Meta.exactLayout_iff hne).2 ⟨hpos, hlow, hhigh⟩) hx

/-- Three chunks of the largest chunk size, `2^63 - 1` bytes, holding the longest value,
`2^64 - 1` bytes: the upper bound `3 * (2^63 - 1)` passes the largest word and is stopped
there. -/
def Sample.wideMeta : Meta :=
  { chunkSize := 9223372036854775807, totalLength := 18446744073709551615,
    chunks := [Keys.sequence 0, Keys.sequence 1, Keys.sequence 2] }

/-- The longest value in three chunks of the largest size meets the exact bounds, and the
layout check passes it. -/
theorem chunk_layout_wide_sample :
    Sample.wideMeta.chunks ≠ [] ∧ Sample.wideMeta.ExactLayout ∧
      Sample.wideMeta.layout = .ok (18446744073709551615, 9223372036854775807) := by
  have hne : Sample.wideMeta.chunks ≠ [] := by simp [Sample.wideMeta]
  have hx : Sample.wideMeta.ExactLayout := by decide
  exact ⟨hne, hx, (chunk_layout_exact_bounds _ hne).1 hx⟩

namespace Bucket

/-! ## Chunks and their payloads -/

/-- `p` is the payload of the chunk `k` of the chunk bucket `s`: a record stands under the
chunk's key and decodes to an envelope carrying `p`. -/
def ChunkPayload (s : Bucket) (t : Table) (k p : Bytes) : Prop :=
  ∃ r e, t.get? (s.entryKey k) = some r ∧ Envelope.decode r = .ok e ∧ e.payload = p

/-- Every chunk a meta lists, but the last, holds exactly the meta's chunk size in the chunk
bucket `s`: the shape that `Bucket.put` writes and that ranged reads assume. -/
def FullChunks (s : Bucket) (t : Table) (m : Meta) : Prop :=
  ∀ k ∈ m.chunks.dropLast, ∀ p, s.ChunkPayload t k p → p.length = m.chunkBytes

variable {s b : Bucket} {t : Table}

/-- A chunk has one payload. -/
theorem ChunkPayload.unique {k p q : Bytes} (hp : s.ChunkPayload t k p)
    (hq : s.ChunkPayload t k q) : p = q := by
  obtain ⟨r, e, hr, he, rfl⟩ := hp
  obtain ⟨r', e', hr', he', rfl⟩ := hq
  rw [hr] at hr'
  cases hr'
  rw [he] at he'
  cases he'
  rfl

/-- Reading a chunk gives its payload, and nothing else. -/
theorem readChunk_eq_ok {k p : Bytes} : s.readChunk t k = .ok p ↔ s.ChunkPayload t k p := by
  unfold readChunk ChunkPayload
  cases hr : t.get? (s.entryKey k) with
  | none => simp
  | some r =>
    cases he : Envelope.decode r with
    | error err => simp [bind, Except.bind, he]
    | ok e => simp [bind, Except.bind, he, pure, Except.pure]

/-- Reading a list of chunks succeeds exactly when every chunk has a payload, and joins the
payloads in order. -/
theorem readChunks_eq_ok {ks : List Bytes} {P : Bytes} :
    s.readChunks t ks = .ok P ↔ ∃ ps, List.Forall₂ (s.ChunkPayload t) ks ps ∧ P = ps.flatten := by
  induction ks generalizing P with
  | nil =>
    simp only [readChunks, Except.ok.injEq, List.forall₂_nil_left_iff, exists_eq_left,
      List.flatten_nil]
    exact eq_comm
  | cons k ks ih =>
    simp only [readChunks, Except.bind_eq_ok, readChunk_eq_ok, ih, List.forall₂_cons_left_iff]
    constructor
    · rintro ⟨p, hp, rest, ⟨ps, hps, rfl⟩, hP⟩
      cases hP
      exact ⟨p :: ps, ⟨p, ps, hp, hps, rfl⟩, rfl⟩
    · rintro ⟨_, ⟨p, ps, hp, hps, rfl⟩, rfl⟩
      exact ⟨p, hp, ps.flatten, ⟨ps, hps, rfl⟩, rfl⟩

/-- Whether the chunks are full can be read off their payloads in order. -/
theorem fullChunks_iff {m : Meta} {ps : List Bytes}
    (h : List.Forall₂ (s.ChunkPayload t) m.chunks ps) :
    FullChunks s t m ↔ ∀ p ∈ ps.dropLast, p.length = m.chunkBytes := by
  have hlast : List.Forall₂ (s.ChunkPayload t) m.chunks.dropLast ps.dropLast := by
    rw [List.dropLast_eq_take, List.dropLast_eq_take, h.length_eq]
    exact List.forall₂_take _ h
  unfold FullChunks
  generalize m.chunks.dropLast = ks at hlast ⊢
  generalize ps.dropLast = qs at hlast ⊢
  induction hlast with
  | nil => simp
  | @cons k p ks ps hkp _ ih =>
    simp only [List.mem_cons, forall_eq_or_imp]
    constructor
    · rintro ⟨hk, hrest⟩
      exact ⟨hk p hkp, ih.1 hrest⟩
    · rintro ⟨hp, hrest⟩
      refine ⟨fun q hq => ?_, ih.2 hrest⟩
      rw [← ChunkPayload.unique hkp hq]
      exact hp

/-! ## Lengths of joined chunks -/

/-- The first `i + 1` chunks hold the first `i` and the `i`-th. -/
theorem length_flatten_take_succ {ps : List Bytes} {i : Nat} (hi : i < ps.length) :
    (ps.take (i + 1)).flatten.length = (ps.take i).flatten.length + ps[i].length := by
  rw [List.take_add_one, List.getElem?_eq_getElem hi, Option.toList_some, List.flatten_append,
    List.length_append, List.flatten_singleton]

/-- The first `i` chunks and the rest together hold the whole value. -/
theorem length_flatten_take_add_drop (ps : List Bytes) (i : Nat) :
    (ps.take i).flatten.length + (ps.drop i).flatten.length = ps.flatten.length := by
  rw [← List.length_append, ← List.flatten_append, List.take_append_drop]

/-- Chunks that are all full but the last: the first `i` of them hold `i * size` bytes. -/
theorem length_flatten_take_of_full {ps : List Bytes} {size : Nat}
    (hfull : ∀ p ∈ ps.dropLast, p.length = size) {i : Nat} (hi : i < ps.length) :
    (ps.take i).flatten.length = i * size := by
  induction i with
  | zero => simp
  | succ i ih =>
    have hmem : ps[i] ∈ ps.dropLast := by
      rw [List.mem_iff_getElem]
      exact ⟨i, by simp; omega, List.getElem_dropLast _⟩
    rw [length_flatten_take_succ (by omega), ih (by omega), hfull _ hmem, Nat.succ_mul]

/-- Past the first `i` chunks, the joined value goes on with the `i`-th chunk. -/
theorem drop_flatten_of_take {ps : List Bytes} (i : Nat) {n : Nat}
    (hn : (ps.take i).flatten.length ≤ n) :
    ps.flatten.drop n = (ps.drop i).flatten.drop (n - (ps.take i).flatten.length) := by
  conv => lhs; rw [← List.take_append_drop i ps, List.flatten_append]
  rw [List.drop_append, List.drop_eq_nil_of_le hn, List.nil_append]

/-! ## Joining and copying chunks -/

variable {m : Meta} {total size : Nat}

/-- Joining a chunked value succeeds exactly when its layout passes, its chunks read, and
they are exactly as long as the meta says. -/
theorem joinChunks_eq_ok {P : Bytes} :
    s.joinChunks t m = .ok P ↔ (∃ total size, m.layout = .ok (total, size)) ∧
      s.readChunks t m.chunks = .ok P ∧ P.length = m.totalLength.toNat := by
  unfold joinChunks
  cases hl : m.layout with
  | error err => simp [bind, Except.bind]
  | ok ts =>
    cases hr : s.readChunks t m.chunks with
    | error err => simp [bind, Except.bind]
    | ok value =>
      by_cases hlen : value.length = m.totalLength.toNat
      · simp only [bind, Except.bind, hlen, if_true, pure, Except.pure, Except.ok.injEq]
        constructor
        · rintro rfl
          exact ⟨⟨ts.1, ts.2, rfl⟩, rfl, hlen⟩
        · rintro ⟨-, rfl, -⟩
          rfl
      · simp only [bind, Except.bind, hlen, if_false, reduceCtorEq, false_iff, not_and,
          Except.ok.injEq]
        rintro - rfl
        exact hlen

/-- Copying from chunks whose payloads are `ps` reads the joined payloads from `skip` on,
`want` bytes at most, provided the first chunk holds at least `skip` bytes; no chunk past the
last one needed is read. -/
theorem copyChunks_eq {ks ps : List Bytes} (h : List.Forall₂ (s.ChunkPayload t) ks ps)
    {skip : Nat} (hskip : ∀ p ∈ ps.head?, skip ≤ p.length) (index want : Nat) :
    s.copyChunks t ks index skip want = .ok ((ps.flatten.drop skip).take want) := by
  induction h generalizing index skip want with
  | nil => simp [copyChunks]
  | @cons k p ks ps hp _ ih =>
    have hp_len : skip ≤ p.length := hskip p rfl
    unfold copyChunks
    by_cases hwant : want = 0
    · simp [hwant]
    rw [if_neg hwant, readChunk_eq_ok.2 hp]
    simp only [bind, Except.bind, if_neg (Nat.not_lt.2 hp_len)]
    rw [ih (by simp) (index + 1) (want - ((p.drop skip).take want).length)]
    -- the piece of the first chunk, then what is still wanted from the chunks after it
    simp only [pure, Except.pure, List.flatten_cons, List.drop_append_of_le_length hp_len,
      List.take_append, List.drop_zero, List.length_take, List.length_drop, Except.ok.injEq]
    congr 2
    omega

/-- Past the end of a chunked value, a ranged read fails. -/
theorem readChunksAt_of_lt (hl : m.layout = .ok (total, size)) {offset : Nat}
    (ho : total < offset) (want : Nat) :
    s.readChunksAt t m want offset = .error (.offsetOutOfRange offset total) := by
  simp only [readChunksAt, hl, bind, Except.bind, if_pos (show offset > total from ho)]

/-- Up to the end of a chunked value, a ranged read starts at chunk `offset / size`, skipping
`offset % size` bytes of it. -/
theorem readChunksAt_of_le (hl : m.layout = .ok (total, size)) {offset : Nat}
    (ho : offset ≤ total) (want : Nat) :
    s.readChunksAt t m want offset =
      s.copyChunks t (m.chunks.drop (offset / size)) (offset / size) (offset % size) want := by
  simp only [readChunksAt, hl, bind, Except.bind, if_neg (show ¬ offset > total by omega)]

/-- A chunk size that passes the layout check is positive. -/
theorem size_pos_of_layout (hl : m.layout = .ok (total, size)) : 0 < size := by
  obtain ⟨-, -, -, hlow, hhigh⟩ := Meta.layout_eq_ok.1 hl
  rcases Nat.eq_zero_or_pos size with h0 | h0
  · subst h0
    simp only [Nat.mul_zero] at hlow hhigh
    omega
  · exact h0

/-! ## Ranged reads against the joined value -/

variable {ps : List Bytes}

/-- When every chunk but the last is full, a ranged read from any offset up to the end slices
the joined value. -/
theorem readChunksAt_of_full (hl : m.layout = .ok (total, size))
    (h : List.Forall₂ (s.ChunkPayload t) m.chunks ps) (htotal : ps.flatten.length = total)
    (hfull : ∀ p ∈ ps.dropLast, p.length = size) {offset : Nat} (ho : offset ≤ total)
    (want : Nat) :
    s.readChunksAt t m want offset = .ok ((ps.flatten.drop offset).take want) := by
  obtain ⟨-, -, -, -, hhigh⟩ := Meta.layout_eq_ok.1 hl
  rw [h.length_eq] at hhigh
  have hsize := size_pos_of_layout hl
  rw [readChunksAt_of_le hl ho]
  have hsplit : offset = offset / size * size + offset % size := by
    rw [Nat.mul_comm]
    exact (Nat.div_add_mod offset size).symm
  have hskip : offset % size < size := Nat.mod_lt _ hsize
  by_cases hin : offset / size < ps.length
  · -- the read starts inside chunk `offset / size`, after the full chunks before it
    have hbefore := length_flatten_take_of_full hfull hin
    have hdrop : ps.flatten.drop offset =
        (ps.drop (offset / size)).flatten.drop (offset % size) := by
      rw [drop_flatten_of_take (offset / size) (by omega), hbefore]
      congr 1
      omega
    rw [hdrop]
    refine copyChunks_eq (List.forall₂_drop _ h) ?_ _ _
    intro p hp
    rw [List.head?_drop, List.getElem?_eq_getElem hin, Option.mem_some_iff] at hp
    subst hp
    by_cases hlast : offset / size + 1 < ps.length
    · -- a chunk before the last is full, and the skip is shorter than a chunk
      have hmem : ps[offset / size] ∈ ps.dropLast := by
        rw [List.mem_iff_getElem]
        exact ⟨offset / size, by simp; omega, List.getElem_dropLast _⟩
      rw [hfull _ hmem]
      omega
    · -- the last chunk holds the rest of the value, which reaches the offset
      have hall := length_flatten_take_succ hin
      rw [List.take_of_length_le (by omega), htotal, hbefore] at hall
      omega
  · -- only a value that fills all its chunks ends on the boundary after the last one
    have hn := h.length_eq
    have hend : ps.length * size ≤ offset / size * size := Nat.mul_le_mul_right _ (by omega)
    have hoff : offset = total := by omega
    rw [List.drop_eq_nil_of_le (by omega), List.drop_eq_nil_of_le (by omega), hoff]
    simp [copyChunks]

/-- Ranged reads that slice the joined value from every chunk boundary find every chunk but
the last full. -/
theorem full_of_readChunksAt (hl : m.layout = .ok (total, size))
    (h : List.Forall₂ (s.ChunkPayload t) m.chunks ps) (htotal : ps.flatten.length = total)
    (hagree : ∀ offset ≤ total, ∀ want,
      s.readChunksAt t m want offset = .ok ((ps.flatten.drop offset).take want)) :
    ∀ p ∈ ps.dropLast, p.length = size := by
  obtain ⟨-, -, -, hlow, -⟩ := Meta.layout_eq_ok.1 hl
  rw [h.length_eq] at hlow
  have hsize := size_pos_of_layout hl
  -- a read of the whole rest from the start of chunk `i` finds the chunks before it `i * size`
  -- bytes long
  have hbefore : ∀ i < ps.length, (ps.take i).flatten.length = i * size := by
    intro i hi
    have hbound : i * size < total := by
      have : i * size ≤ (ps.length - 1) * size := Nat.mul_le_mul_right _ (by omega)
      omega
    have hsum := length_flatten_take_add_drop ps i
    have hread := hagree (i * size) (by omega) total
    rw [readChunksAt_of_le hl (by omega), Nat.mul_div_cancel _ hsize, Nat.mul_mod_left,
      copyChunks_eq (List.forall₂_drop _ h) (by simp), List.drop_zero,
      List.take_of_length_le (by omega),
      List.take_of_length_le (by rw [List.length_drop, htotal]; omega), Except.ok.injEq] at hread
    have hlen := congrArg List.length hread
    rw [List.length_drop, htotal] at hlen
    omega
  intro p hp
  obtain ⟨j, hj, rfl⟩ := List.mem_iff_getElem.1 hp
  rw [List.getElem_dropLast]
  rw [List.length_dropLast] at hj
  have hstep := length_flatten_take_succ (show j < ps.length by omega)
  rw [hbefore j (by omega), hbefore (j + 1) (by omega), Nat.succ_mul] at hstep
  omega

/-! ## Full and ranged reads of an entry -/

variable {key r : Bytes} {e : Envelope}

/-- The record under a caller's key is what the table holds there. -/
theorem record_of_get? (hr : t.get? (b.entryKey key) = some r) : b.record t key = .ok r := by
  simp [record, hr]

/-- An entry kept inline reads back as its envelope's payload and meta. -/
theorem get_of_inline (hr : t.get? (b.entryKey key) = some r) (hd : Envelope.decode r = .ok e)
    (hi : ∀ m, e.info = some m → m.isChunked = false) :
    b.get t key = .ok (e.payload, e.info) := by
  simp only [get, record_of_get? hr, bind, Except.bind, hd]
  cases hinfo : e.info with
  | none => rfl
  | some m => simp [hi m hinfo, pure, Except.pure]

/-- A chunked entry reads back as its chunks joined, from the namespace's chunk bucket. -/
theorem get_of_chunked (hb : b.chunked = true) (hr : t.get? (b.entryKey key) = some r)
    (hd : Envelope.decode r = .ok e) (hi : e.info = some m) (hc : m.isChunked = true) :
    b.get t key = ((chunks b.space).joinChunks t m).map (·, some m) := by
  simp only [get, record_of_get? hr, bind, Except.bind, hd, hi, hc, if_true, chunkStore, hb]
  cases (chunks b.space).joinChunks t m <;> rfl

/-- A ranged read of an entry kept inline slices its payload, from an offset inside it. -/
theorem getAt_of_inline (hr : t.get? (b.entryKey key) = some r) (hd : Envelope.decode r = .ok e)
    (hi : ∀ m, e.info = some m → m.isChunked = false) (want offset : Nat) :
    b.getAt t key want offset =
      if offset ≥ e.payload.length then .error (.offsetOutOfRange offset e.payload.length)
      else .ok ((e.payload.drop offset).take want) := by
  simp only [getAt, record_of_get? hr, bind, Except.bind, hd]
  cases hinfo : e.info with
  | none => rfl
  | some m => simp [hi m hinfo, pure, Except.pure]

/-- A ranged read of a chunked entry reads from the namespace's chunk bucket. -/
theorem getAt_of_chunked (hb : b.chunked = true) (hr : t.get? (b.entryKey key) = some r)
    (hd : Envelope.decode r = .ok e) (hi : e.info = some m) (hc : m.isChunked = true)
    (want offset : Nat) :
    b.getAt t key want offset = (chunks b.space).readChunksAt t m want offset := by
  simp only [getAt, record_of_get? hr, bind, Except.bind, hd, hi, hc, if_true, chunkStore, hb]

/-- What a successful read has seen: the entry's record and envelope, and either a value kept
inline or chunks that joined to the value. -/
theorem get_eq_ok (hb : b.chunked = true) {P : Bytes} {mo : Option Meta}
    (h : b.get t key = .ok (P, mo)) :
    ∃ r e, t.get? (b.entryKey key) = some r ∧ Envelope.decode r = .ok e ∧ mo = e.info ∧
      (((∀ m, e.info = some m → m.isChunked = false) ∧ P = e.payload) ∨
        ∃ m, e.info = some m ∧ m.isChunked = true ∧ (chunks b.space).joinChunks t m = .ok P) := by
  cases hr : t.get? (b.entryKey key) with
  | none => simp [get, record, hr, bind, Except.bind] at h
  | some r =>
    cases hd : Envelope.decode r with
    | error err => simp [get, record_of_get? hr, bind, Except.bind, hd] at h
    | ok e =>
      refine ⟨r, e, rfl, hd, ?_⟩
      by_cases hc : ∃ m, e.info = some m ∧ m.isChunked = true
      · obtain ⟨m, hi, hc⟩ := hc
        rw [get_of_chunked hb hr hd hi hc] at h
        cases hj : (chunks b.space).joinChunks t m with
        | error err => simp [hj, Except.map] at h
        | ok P' =>
          simp only [hj, Except.map, Except.ok.injEq, Prod.mk.injEq] at h
          obtain ⟨rfl, rfl⟩ := h
          exact ⟨hi.symm, .inr ⟨m, hi, hc, hj⟩⟩
      · have hi : ∀ m, e.info = some m → m.isChunked = false := by
          intro m hm
          simpa using fun hc' => hc ⟨m, hm, hc'⟩
        rw [get_of_inline hr hd hi, Except.ok.injEq, Prod.mk.injEq] at h
        obtain ⟨rfl, rfl⟩ := h
        exact ⟨rfl, .inl ⟨hi, rfl⟩⟩

/-- A chunked entry reads back exactly when its layout passes, every chunk it lists exists and
decodes, and the chunks' payloads join to the meta's length; the value is then that join. -/
theorem get_chunked_eq_ok (hb : b.chunked = true) (hr : t.get? (b.entryKey key) = some r)
    (hd : Envelope.decode r = .ok e) (hi : e.info = some m) (hc : m.isChunked = true)
    {P : Bytes} {mo : Option Meta} :
    b.get t key = .ok (P, mo) ↔ mo = some m ∧ (∃ total size, m.layout = .ok (total, size)) ∧
      (∃ ps, List.Forall₂ ((chunks b.space).ChunkPayload t) m.chunks ps ∧ P = ps.flatten) ∧
      P.length = m.totalLength.toNat := by
  rw [get_of_chunked hb hr hd hi hc]
  constructor
  · intro h
    cases hj : (chunks b.space).joinChunks t m with
    | error err => simp [hj, Except.map] at h
    | ok P' =>
      simp only [hj, Except.map, Except.ok.injEq, Prod.mk.injEq] at h
      obtain ⟨rfl, rfl⟩ := h
      obtain ⟨hl, hread, hlen⟩ := joinChunks_eq_ok.1 hj
      exact ⟨rfl, hl, readChunks_eq_ok.1 hread, hlen⟩
  · rintro ⟨rfl, hl, hread, hlen⟩
    rw [joinChunks_eq_ok.2 ⟨hl, readChunks_eq_ok.2 hread, hlen⟩]
    rfl

variable {P : Bytes} {mo : Option Meta}

/-- Past the end of a value that reads back, a ranged read fails, whatever the entry's
shape. -/
theorem getAt_past_end (hb : b.chunked = true) (hget : b.get t key = .ok (P, mo))
    {offset : Nat} (ho : P.length < offset) (want : Nat) :
    b.getAt t key want offset = .error (.offsetOutOfRange offset P.length) := by
  obtain ⟨r, e, hr, hd, -, hcase⟩ := get_eq_ok hb hget
  rcases hcase with ⟨hi, rfl⟩ | ⟨m, hi, hc, hj⟩
  · rw [getAt_of_inline hr hd hi, if_pos (by omega)]
  · obtain ⟨⟨total, size, hl⟩, -, hlen⟩ := joinChunks_eq_ok.1 hj
    obtain ⟨-, -, rfl, -, -⟩ := Meta.layout_eq_ok.1 hl
    rw [getAt_of_chunked hb hr hd hi hc, readChunksAt_of_lt hl (by omega), hlen]

/-- On an entry kept inline that reads back, a ranged read slices the value from every offset
inside it, and fails at its end. -/
theorem getAt_inline_eq (hb : b.chunked = true) (hget : b.get t key = .ok (P, mo))
    (hinline : ∀ m, mo = some m → m.isChunked = false) :
    (∀ offset < P.length, ∀ want, b.getAt t key want offset = .ok ((P.drop offset).take want)) ∧
      ∀ want, b.getAt t key want P.length = .error (.offsetOutOfRange P.length P.length) := by
  obtain ⟨r, e, hr, hd, rfl, hcase⟩ := get_eq_ok hb hget
  rcases hcase with ⟨hi, rfl⟩ | ⟨m, hi, hc, -⟩
  · refine ⟨fun offset ho want => ?_, fun want => ?_⟩
    · rw [getAt_of_inline hr hd hi, if_neg (by omega)]
    · rw [getAt_of_inline hr hd hi, if_pos (Nat.le_refl _)]
  · rw [hinline m hi] at hc
    cases hc

/-- On a chunked entry that reads back, every ranged read up to the end slices the value
exactly when every chunk but the last is full. -/
theorem getAt_chunked_agrees_iff (hb : b.chunked = true) (hget : b.get t key = .ok (P, some m))
    (hc : m.isChunked = true) :
    (∀ offset ≤ P.length, ∀ want, b.getAt t key want offset = .ok ((P.drop offset).take want)) ↔
      FullChunks (chunks b.space) t m := by
  obtain ⟨r, e, hr, hd, hinfo, -⟩ := get_eq_ok hb hget
  have hi : e.info = some m := hinfo.symm
  obtain ⟨-, ⟨total, size, hl⟩, ⟨ps, hps, rfl⟩, hlen⟩ :=
    (get_chunked_eq_ok hb hr hd hi hc).1 hget
  obtain ⟨-, rfl, rfl, -, -⟩ := Meta.layout_eq_ok.1 hl
  simp only [getAt_of_chunked hb hr hd hi hc, hlen]
  rw [fullChunks_iff hps]
  exact ⟨fun hagree => full_of_readChunksAt hl hps hlen hagree,
    fun hfull offset ho want => readChunksAt_of_full hl hps hlen hfull ho want⟩

end Bucket

/-! ## The full and the ranged read together -/

/-- The full and the ranged read of an entry of a bucket with a chunk store.

A chunked entry reads back exactly when its layout passes, every chunk it lists exists and
decodes, and the chunks' payloads join to the meta's length; the value is that join.

On an entry that reads back as `P`, a ranged read of `want` bytes from `offset` gives
`(P.drop offset).take want`, which is `min want (P.length - offset)` bytes long, when the entry
is kept inline and the offset is inside `P`. Past the end of `P` it fails, and so it does at the
end of an inline value. On a chunked entry it gives that slice for every offset up to the end,
the end included, exactly when every chunk but the last is full. Chunks of other lengths that
still join to the right length are accepted by the full read, and the ranged read then fails to
copy the slice it is meant to copy. -/
theorem ranged_read_agrees_with_read {b : Bucket} (hb : b.chunked = true) (t : Table)
    (key : Bytes) :
    (∀ r e m P mo, t.get? (b.entryKey key) = some r → Envelope.decode r = .ok e →
      e.info = some m → m.isChunked = true →
      (b.get t key = .ok (P, mo) ↔ mo = some m ∧ (∃ total size, m.layout = .ok (total, size)) ∧
        (∃ ps, List.Forall₂ ((Bucket.chunks b.space).ChunkPayload t) m.chunks ps ∧
          P = ps.flatten) ∧
        P.length = m.totalLength.toNat)) ∧
    ∀ P mo, b.get t key = .ok (P, mo) →
      (∀ offset want, P.length < offset →
        b.getAt t key want offset = .error (.offsetOutOfRange offset P.length)) ∧
      ((∀ m, mo = some m → m.isChunked = false) →
        (∀ offset < P.length, ∀ want,
          b.getAt t key want offset = .ok ((P.drop offset).take want)) ∧
        ∀ want, b.getAt t key want P.length = .error (.offsetOutOfRange P.length P.length)) ∧
      ∀ m, mo = some m → m.isChunked = true →
        ((∀ offset ≤ P.length, ∀ want,
            b.getAt t key want offset = .ok ((P.drop offset).take want)) ↔
          Bucket.FullChunks (Bucket.chunks b.space) t m) := by
  refine ⟨fun r e m P mo hr hd hi hc => Bucket.get_chunked_eq_ok hb hr hd hi hc, ?_⟩
  intro P mo hget
  refine ⟨fun offset want ho => Bucket.getAt_past_end hb hget ho want,
    fun hinline => Bucket.getAt_inline_eq hb hget hinline, ?_⟩
  rintro m rfl hc
  exact Bucket.getAt_chunked_agrees_iff hb hget hc

namespace Sample

/-- The key prefix of a namespace named `ns`. -/
def space : Bytes := Keys.namespacePrefix (Bytes.ofString "ns")

/-- The meta of a six-byte value in chunks of four bytes, under the first two keys the chunk
counter hands out. -/
def chunkedMeta : Meta :=
  { chunkSize := 4, totalLength := 6, chunks := [Keys.sequence 0, Keys.sequence 1] }

/-- A store holding, under the key `a` of the object bucket of `ns`, a value chunked by
`chunkedMeta` whose two chunks hold `first` and `second`. -/
def store (first second : Bytes) : Table :=
  ((Table.empty.insert ((Bucket.chunks space).entryKey (Keys.sequence 0)) (0x00 :: first)).insert
    ((Bucket.chunks space).entryKey (Keys.sequence 1)) (0x00 :: second)).insert
    ((Bucket.objects space).entryKey [0x61])
    (0x01 :: Bytes.ofNatBE 4 chunkedMeta.pack.length ++ chunkedMeta.pack ++ [])

/-- The entry `a` of the sample store, with any chunks, decodes to the chunked meta. -/
theorem decode_entry (first second : Bytes) :
    ∃ r, (store first second).get? ((Bucket.objects space).entryKey [0x61]) = some r ∧
      Envelope.decode r = .ok ⟨some chunkedMeta, []⟩ :=
  ⟨_, rfl, Envelope.decode_meta_record [] (by decide)⟩

/-- The chunks of the sample store hold `first` and `second`. -/
theorem chunkPayloads (first second : Bytes) :
    List.Forall₂ ((Bucket.chunks space).ChunkPayload (store first second)) chunkedMeta.chunks
      [first, second] :=
  .cons ⟨_, ⟨none, first⟩, rfl, rfl, rfl⟩ (.cons ⟨_, ⟨none, second⟩, rfl, rfl, rfl⟩ .nil)

/-- The sample meta passes the layout check. -/
theorem layout_chunkedMeta : chunkedMeta.layout = .ok (6, 4) := rfl

end Sample

/-- With the chunks `abcd` and `ef` the value `abcdef` reads back, and a ranged read of four
bytes from offset 3 gives `def`. -/
theorem ranged_read_full_chunks_sample :
    (Bucket.objects Sample.space).chunked = true ∧
    (Bucket.objects Sample.space).get (Sample.store [97, 98, 99, 100] [101, 102]) [0x61] =
      .ok ([97, 98, 99, 100, 101, 102], some Sample.chunkedMeta) ∧
    (Bucket.objects Sample.space).getAt (Sample.store [97, 98, 99, 100] [101, 102]) [0x61] 4 3 =
      .ok [100, 101, 102] := by
  have hb : (Bucket.objects Sample.space).chunked = true := rfl
  obtain ⟨r, hr, hd⟩ := Sample.decode_entry [97, 98, 99, 100] [101, 102]
  obtain ⟨hread, hranged⟩ := ranged_read_agrees_with_read hb _ [0x61]
  have hget := (hread r _ Sample.chunkedMeta _ (some Sample.chunkedMeta) hr hd rfl rfl).2
    ⟨rfl, ⟨6, 4, Sample.layout_chunkedMeta⟩, ⟨_, Sample.chunkPayloads _ _, rfl⟩, rfl⟩
  have hfull := (Bucket.fullChunks_iff (Sample.chunkPayloads [97, 98, 99, 100] [101, 102])).2
    (by decide)
  exact ⟨hb, hget, ((hranged _ _ hget).2.2 _ rfl rfl).2 hfull 3 (by decide) 4⟩

/-- With the chunks `ab` and `cdef` the value `abcdef` still reads back, but a ranged read of
four bytes from offset 4 starts at the second chunk and copies `cdef`, where the value it is
meant to copy from holds `ef` from offset 4 on. -/
theorem ranged_read_misses_short_chunk :
    (Bucket.objects Sample.space).get (Sample.store [97, 98] [99, 100, 101, 102]) [0x61] =
      .ok ([97, 98, 99, 100, 101, 102], some Sample.chunkedMeta) ∧
    (Bucket.objects Sample.space).getAt (Sample.store [97, 98] [99, 100, 101, 102]) [0x61] 4 4 =
      .ok [99, 100, 101, 102] ∧
    (([97, 98, 99, 100, 101, 102] : Bytes).drop 4).take 4 = [101, 102] := by
  have hb : (Bucket.objects Sample.space).chunked = true := rfl
  obtain ⟨r, hr, hd⟩ := Sample.decode_entry [97, 98] [99, 100, 101, 102]
  have hps := Sample.chunkPayloads [97, 98] [99, 100, 101, 102]
  refine ⟨(Bucket.get_chunked_eq_ok hb hr hd rfl rfl).2
    ⟨rfl, ⟨6, 4, Sample.layout_chunkedMeta⟩, ⟨_, hps, rfl⟩, rfl⟩, ?_, rfl⟩
  -- the read starts at chunk `4 / 4 = 1`, the second one, with nothing to skip
  rw [Bucket.getAt_of_chunked hb hr hd rfl rfl,
    Bucket.readChunksAt_of_le Sample.layout_chunkedMeta (by decide)]
  exact (Bucket.copyChunks_eq (List.forall₂_drop _ hps) (by decide) _ _).trans rfl

end ArchiveStore
