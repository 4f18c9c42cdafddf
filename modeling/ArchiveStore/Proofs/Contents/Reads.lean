import ArchiveStore.Proofs.Contents.Model
import ArchiveStore.Proofs.ChunkedRead
import ArchiveStore.Proofs.Write
/-!
# Reading back what was stored

A read of an entry looks at the entry's record and, for a chunked value, at the chunks the
record lists; nothing else in the table matters to it (`Bucket.get_congr`,
`ReadsAs.congr`). This module also shows that each record a put writes reads back as the
value and meta the caller gave:

* `ReadsAs.plain` and `ReadsAs.inline`: a value kept in its record;
* `ReadsAs.chunked`: a value cut into `Bytes.pieces`, whose chunks hold the pieces in order.
  The pieces join back to the value (`Bytes.flatten_pieces`), and their number is what the
  layout check asks of the meta (`Bytes.length_pieces_bounds`); this needs the value to be
  shorter than 2^64 bytes, since the meta keeps its length as a 64-bit word;
* `Table.chunkPayloads_appendPlain`: appended chunks hold the pieces, one each, in order.
-/

namespace ArchiveStore

namespace Bytes

/-- The pieces of a value join back to it. -/
theorem flatten_pieces (size : Nat) (bs : Bytes) : (pieces size bs).flatten = bs := by
  fun_induction pieces size bs with
  | case1 => rfl
  | case2 bs _ _ => simp
  | case3 => rfl
  | case4 _ b rest ih => rw [List.flatten_cons, ih, List.take_append_drop]

/-- A nonempty value cut into pieces of a positive size has as many pieces as that size
needs and no more: the pieces but one fall short of it, and all of them reach it. -/
theorem length_pieces_bounds {size : Nat} {bs : Bytes} (hsize : 0 < size) (hbs : bs ≠ []) :
    ((pieces size bs).length - 1) * size < bs.length ∧ bs.length ≤ (pieces size bs).length * size := by
  induction bs using pieces.induct size with
  | case1 h => omega
  | case2 _ h _ => omega
  | case3 => exact absurd rfl hbs
  | case4 _ b rest ih =>
    rw [pieces, if_neg (by omega)]
    simp only [List.length_cons, Nat.add_sub_cancel]
    by_cases hrest : (b :: rest).drop size = []
    · -- the value fits one piece
      have hle : (b :: rest).length ≤ size := by simpa using hrest
      rw [hrest, pieces]
      simp only [Nat.pos_iff_ne_zero.1 hsize, if_false, List.length_nil, Nat.zero_mul,
        Nat.zero_add, Nat.one_mul]
      exact ⟨by simp, hle⟩
    · -- one piece of the full size, then the pieces of the rest
      obtain ⟨hlo, hhi⟩ := ih hrest
      have hpos : 0 < (pieces size ((b :: rest).drop size)).length :=
        List.length_pos_of_ne_nil (pieces_ne_nil hrest)
      have hlen : ((b :: rest).drop size).length = (b :: rest).length - size := List.length_drop
      have hgt : size < (b :: rest).length := by
        rw [List.drop_eq_nil_iff] at hrest
        omega
      obtain ⟨m, hm⟩ : ∃ m, (pieces size ((b :: rest).drop size)).length = m + 1 :=
        ⟨_, (Nat.succ_pred_eq_of_pos hpos).symm⟩
      rw [hm] at hlo hhi ⊢
      simp only [Nat.add_sub_cancel, Nat.succ_mul] at hlo hhi ⊢
      simp only [List.length_cons] at hlen hgt
      omega

end Bytes

namespace Bucket

variable {s b : Bucket} {t t' : Table} {key k p r : Bytes} {e : Envelope} {m : Meta}

/-- A chunk keeps its payload in a table that keeps its record. -/
theorem ChunkPayload.congr (h : s.ChunkPayload t k p)
    (heq : t'.get? (s.entryKey k) = t.get? (s.entryKey k)) : s.ChunkPayload t' k p := by
  obtain ⟨r, e, hr, hd, hp⟩ := h
  exact ⟨r, e, heq.trans hr, hd, hp⟩

/-- Chunks keep their payloads in a table that keeps their records. -/
theorem chunkPayloads_congr {ks ps : List Bytes}
    (heq : ∀ y ∈ ks, t'.get? (s.entryKey y) = t.get? (s.entryKey y))
    (h : List.Forall₂ (s.ChunkPayload t) ks ps) : List.Forall₂ (s.ChunkPayload t') ks ps := by
  induction h with
  | nil => exact .nil
  | cons hp _ ih =>
    exact .cons (hp.congr (heq _ List.mem_cons_self))
      (ih fun y hy => heq y (List.mem_cons_of_mem _ hy))

/-- A plain record holds its value as the payload. -/
@[simp] theorem decode_plain (v : Bytes) : Envelope.decode (0x00 :: v) = .ok ⟨none, v⟩ := rfl

/-- With no record under the key, a read fails as a missing key. -/
theorem get_of_get?_none (h : t.get? (b.entryKey key) = none) :
    b.get t key = .error (.missingKey key b.name) := by
  simp [get, record, h, bind, Except.bind]

/-- Reading chunks looks only at their records. -/
theorem readChunks_congr {ks : List Bytes}
    (h : ∀ x ∈ ks, t'.get? (s.entryKey x) = t.get? (s.entryKey x)) :
    s.readChunks t' ks = s.readChunks t ks := by
  induction ks with
  | nil => rfl
  | cons k ks ih =>
    have hk : s.readChunk t' k = s.readChunk t k := by
      simp only [readChunk, h k List.mem_cons_self]
    simp only [readChunks, hk, ih fun x hx => h x (List.mem_cons_of_mem k hx)]

/-- Joining a chunked value looks only at the records of its chunks. -/
theorem joinChunks_congr (h : ∀ x ∈ m.chunks, t'.get? (s.entryKey x) = t.get? (s.entryKey x)) :
    s.joinChunks t' m = s.joinChunks t m := by
  simp only [joinChunks, readChunks_congr h]

/-- The chunks a record lists are the chunks of the meta it decodes to. -/
theorem refsAt_of_decode (hr : t.get? (b.entryKey key) = some r) (hd : Envelope.decode r = .ok e)
    (hi : e.info = some m) : t.refsAt (b.entryKey key) = m.chunks := by
  simp only [Table.refsAt, hr, chunkRefs, hd, hi]

/-- A read of an entry looks only at its record and at the chunks the record lists. -/
theorem get_congr (hb : b.chunked = true)
    (hentry : t'.get? (b.entryKey key) = t.get? (b.entryKey key))
    (hchunks : ∀ x ∈ t.refsAt (b.entryKey key),
      t'.get? ((chunks b.space).entryKey x) = t.get? ((chunks b.space).entryKey x)) :
    b.get t' key = b.get t key := by
  cases hr : t.get? (b.entryKey key) with
  | none => rw [get_of_get?_none hr, get_of_get?_none (hentry.trans hr)]
  | some r =>
    have hr' := hentry.trans hr
    cases hd : Envelope.decode r with
    | error err => simp [get, record_of_get? hr, record_of_get? hr', bind, Except.bind, hd]
    | ok e =>
      by_cases hc : ∃ m, e.info = some m ∧ m.isChunked = true
      · obtain ⟨m, hi, hc⟩ := hc
        rw [get_of_chunked hb hr' hd hi hc, get_of_chunked hb hr hd hi hc,
          joinChunks_congr fun x hx => hchunks x (by rwa [refsAt_of_decode hr hd hi])]
      · have hi : ∀ m, e.info = some m → m.isChunked = false := by
          intro m hm
          simpa using fun hc' => hc ⟨m, hm, hc'⟩
        rw [get_of_inline hr' hd hi, get_of_inline hr hd hi]

end Bucket

namespace ReadsAs

open Bucket

variable {b : Bucket} {t t' : Table} {key value record : Bytes} {m : Meta}

/-- A read agrees with the contents in a table that keeps the entry's record and the chunks
it lists. -/
theorem congr {e : Option Entry} (h : ReadsAs b t key e) (hb : b.chunked = true)
    (hentry : t'.get? (b.entryKey key) = t.get? (b.entryKey key))
    (hchunks : ∀ x ∈ t.refsAt (b.entryKey key),
      t'.get? ((chunks b.space).entryKey x) = t.get? ((chunks b.space).entryKey x)) :
    ReadsAs b t' key e := by
  have hget := get_congr hb hentry hchunks
  match e, h with
  | none, h => exact hget.trans h
  | some (v, i), ⟨i', h, hi⟩ => exact ⟨i', hget.trans h, hi⟩

/-- No record under the key reads as no entry. -/
theorem of_get?_none (h : t.get? (b.entryKey key) = none) : ReadsAs b t key none :=
  get_of_get?_none h

/-- A plain record reads as its value with no meta. -/
theorem plain (h : t.get? (b.entryKey key) = some (0x00 :: value)) :
    ReadsAs b t key (some (Contents.entryOf value none)) := by
  refine ⟨none, ?_, rfl⟩
  exact get_of_inline h (decode_plain value) fun _ hm => by cases hm

/-- The record of a value kept inline with its meta reads as the value and the meta. -/
theorem inline (h : t.get? (b.entryKey key) = some record)
    (henc : Envelope.encode ⟨some (m.storedFor value []), value⟩ = .ok record) :
    ReadsAs b t key (some (Contents.entryOf value (some m))) := by
  have hd := Envelope.decode_encode ⟨some (m.storedFor value []), value⟩
  rw [henc] at hd
  refine ⟨some (m.storedFor value []), ?_, rfl⟩
  refine get_of_inline h hd fun m' hm => ?_
  cases hm
  rfl

/-- The record of a chunked value reads as the value and the meta when its chunks hold the
value's pieces in order and the value's length fits a 64-bit word. -/
theorem chunked (hb : b.chunked = true) {size : Nat} {keys : List Bytes}
    (h : t.get? (b.entryKey key) = some record)
    (henc : Envelope.encode ⟨some (m.storedFor value keys), []⟩ = .ok record)
    (hsplit : m.splitSize = .ok (some size)) (hlt : size < value.length)
    (hlen : value.length < Nat.pow 2 64)
    (hpay : List.Forall₂ ((chunks b.space).ChunkPayload t) keys (Bytes.pieces size value)) :
    ReadsAs b t key (some (Contents.entryOf value (some m))) := by
  have hd := Envelope.decode_encode ⟨some (m.storedFor value keys), []⟩
  rw [henc] at hd
  obtain ⟨hpos, rfl⟩ := Meta.splitSize_eq_some.1 hsplit
  have hne : value ≠ [] := List.ne_nil_of_length_pos (by omega)
  have hcount : keys.length = (Bytes.pieces m.chunkBytes value).length := hpay.length_eq
  have hkeys : keys ≠ [] := fun hk => by
    rw [hk, List.length_nil] at hcount
    exact Bytes.pieces_ne_nil hne (List.eq_nil_of_length_eq_zero hcount.symm)
  have htotal : (UInt64.ofNat value.length).toNat = value.length := UInt64.toNat_ofNat_of_lt' hlen
  have hsize : 0 < m.chunkBytes := by
    unfold Meta.chunkBytes
    omega
  obtain ⟨hlo, hhi⟩ := Bytes.length_pieces_bounds hsize hne
  -- the layout check of the stored meta passes, with the value's length as the total
  have hlayout : (m.storedFor value keys).layout = .ok (value.length, m.chunkBytes) := by
    rw [Meta.layout_eq_ok]
    refine ⟨hpos, rfl, htotal.symm, ?_, ?_⟩
    · simpa only [Meta.storedFor, hcount] using hlo
    · simpa only [Meta.storedFor, hcount] using hhi
  refine ⟨some (m.storedFor value keys), ?_, rfl⟩
  refine (get_chunked_eq_ok hb h hd rfl (by simpa [Meta.isChunked, Meta.storedFor] using hkeys)).2
    ⟨rfl, ⟨_, _, hlayout⟩, ⟨_, hpay, (Bytes.flatten_pieces _ _).symm⟩, htotal.symm⟩

end ReadsAs

namespace Table

open Bucket

variable {t : Table} {s : Bucket}

/-- Values appended from number `c` on, without passing the largest word, are the payloads
of the chunks under the keys handed out for them, in order. -/
theorem chunkPayloads_appendPlain {c : UInt64} {ps : List Bytes}
    (hfit : c.toNat + ps.length ≤ Nat.pow 2 64) :
    List.Forall₂ (s.ChunkPayload (t.appendPlain s c ps)) (chunkKeys c ps.length) ps := by
  induction ps generalizing t c with
  | nil => exact List.Forall₂.nil
  | cons p ps ih =>
    simp only [List.length_cons] at hfit
    have hsucc : (c + 1).toNat + ps.length ≤ Nat.pow 2 64 := by
      rcases Nat.eq_zero_or_pos ps.length with h0 | h0
      · rw [h0, Nat.add_zero]
        exact Nat.le_of_lt (c + 1).toNat_lt
      · rw [toNat_succ (by omega)]
        omega
    -- the later values go under numbers above `c`, so the first one stays
    have hlater : ∀ k ∈ chunkKeys (c + 1) ps.length, s.entryKey (Keys.sequence c) ≠ s.entryKey k := by
      intro k hk heq
      obtain ⟨i, rfl, hlo, -⟩ := mem_chunkKeys hsucc hk
      rw [entryKey_right_inj, Keys.sequence_inj] at heq
      subst heq
      have : 0 < ps.length := by
        cases ps with
        | nil => cases hk
        | cons _ _ => simp
      rw [toNat_succ (by omega)] at hlo
      omega
    refine List.Forall₂.cons ?_ (ih hsucc)
    refine ⟨0x00 :: p, ⟨none, p⟩, ?_, rfl, rfl⟩
    rw [appendPlain, get?_appendPlain_of_ne (entryKey_ne_own_counter s _) hlater, get?_insert,
      if_pos rfl]

end Table

end ArchiveStore
