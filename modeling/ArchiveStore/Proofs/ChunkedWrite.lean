import ArchiveStore.Proofs.Contents.Reads
/-!
# The layout a put writes

A put of a value `P` with a meta asking for chunks of `C` bytes, into a bucket with a chunk
store, cuts `P` into `⌈|P| / C⌉` pieces when `0 < C < |P|`: piece `i` is `P[i*C ..]` cut to
`C` bytes (`Bytes.pieces_eq_range`), and it goes to the namespace's chunk bucket as a plain
record under the chunk counter's number `c + i` (`Bucket.chunkKeys_eq_range`). The entry keeps
only the meta, listing those keys. Otherwise the value stays inline in the entry's record.

`Table.PutLeaves` describes a put's result key by key: the new record and chunks written, the
replaced record's chunks removed, the counter raised, everything else kept. A split put succeeds
exactly when the chunk numbers it needs stay below the largest word, no record under a new chunk
key lists chunks of its own (the chunk bucket has no chunk store to release them into), and the
meta packs; `chunked_put_refused_past_last_number` is a put refused for want of numbers. It then
leaves `Table.PutLeaves` whenever the replaced record lists none of the new chunk keys, as on
every namespace whose chunks are owned (`Bucket.putIn_split_owned`). `chunked_put_layout`
gathers the three shapes of a put.
-/

namespace ArchiveStore

namespace Bytes

/-- `1 ≤ L ≤ C` bytes make one piece of `C` bytes, and `L > C` bytes one more piece than the
`L - C` bytes after the first. -/
theorem ceil_div_succ {len size : Nat} (hsize : 0 < size) (hlen : 0 < len) :
    (len + size - 1) / size = (len - size + size - 1) / size + 1 := by
  by_cases hle : len ≤ size
  · have hlo : 1 * size ≤ len + size - 1 := by omega
    have hhi : len + size - 1 < (1 + 1) * size := by omega
    have hone : (len + size - 1) / size = 1 := Nat.div_eq_of_lt_le hlo hhi
    have hzero : (len - size + size - 1) / size = 0 := Nat.div_eq_of_lt (by omega)
    rw [hone, hzero]
  · rw [← Nat.add_div_right _ hsize]
    congr 1
    omega

/-- Cut into pieces of a positive size, a value has `⌈|bs| / size⌉` pieces, and piece `i`
holds the bytes from `i * size` on, cut to `size`. -/
theorem pieces_eq_range {size : Nat} (hsize : 0 < size) (bs : Bytes) :
    pieces size bs =
      (List.range ((bs.length + size - 1) / size)).map fun i => (bs.drop (i * size)).take size := by
  induction bs using pieces.induct size with
  | case1 h => omega
  | case2 _ h _ => omega
  | case3 h =>
    rw [pieces, if_neg h]
    simp [Nat.div_eq_of_lt (by omega : size - 1 < size)]
  | case4 h b rest ih =>
    have hcount := ceil_div_succ hsize (show 0 < (b :: rest).length by simp)
    rw [pieces, if_neg h, ih, List.length_drop, hcount, List.range_succ_eq_map, List.map_cons,
      List.map_map]
    simp only [Nat.zero_mul, List.drop_zero]
    congr 1
    refine List.map_congr_left fun i _ => ?_
    -- piece `i + 1` of the value is piece `i` of what follows the first piece
    simp only [Function.comp, List.drop_drop, Nat.succ_mul, Nat.add_comm]

end Bytes

namespace Bucket

/-- The keys handed out for `n` values from number `c` on are `c`, `c + 1`, ..., `c + n - 1`. -/
theorem chunkKeys_eq_range (c : UInt64) (n : Nat) :
    chunkKeys c n = (List.range n).map fun i => Keys.sequence (c + UInt64.ofNat i) := by
  induction n generalizing c with
  | zero => rfl
  | succ n ih =>
    rw [chunkKeys, ih, List.range_succ_eq_map, List.map_cons, List.map_map]
    congr 1
    · simp
    · refine List.map_congr_left fun i _ => ?_
      simp only [Function.comp, Nat.succ_eq_add_one, UInt64.ofNat_add]
      ac_rfl

/-- A number is not among the numbers handed out after it, while they do not pass the largest
word. -/
theorem sequence_not_mem_chunkKeys {c : UInt64} {n : Nat}
    (hfit : c.toNat + 1 + n ≤ Nat.pow 2 64) :
    Keys.sequence c ∉ chunkKeys (c + 1) n := by
  intro hk
  have hn : 0 < n := by
    cases n with
    | zero => cases hk
    | succ n => omega
  have hsucc := toNat_succ (c := c) (by omega)
  obtain ⟨i, hi, hlo, -⟩ := mem_chunkKeys (c := c + 1) (by omega) hk
  rw [Keys.sequence_inj] at hi
  subst hi
  omega

end Bucket

namespace Table

open Bucket

variable {t : Table} {s : Bucket}

/-- The `i`-th value appended from number `c` on is a plain record under number `c + i`. -/
theorem get?_appendPlain_nth {c : UInt64} {ps : List Bytes}
    (hfit : c.toNat + ps.length ≤ Nat.pow 2 64) {i : Nat} (hi : i < ps.length) :
    (t.appendPlain s c ps).get? (s.entryKey (Keys.sequence (c + UInt64.ofNat i))) =
      some (0x00 :: ps[i]) := by
  induction ps generalizing t c i with
  | nil => cases hi
  | cons p ps ih =>
    simp only [List.length_cons] at hfit hi
    cases i with
    | zero =>
      -- the later values go under numbers above `c`
      have hlater : ∀ k ∈ chunkKeys (c + 1) ps.length,
          s.entryKey (Keys.sequence (c + UInt64.ofNat 0)) ≠ s.entryKey k := by
        intro k hk heq
        rw [entryKey_right_inj] at heq
        rw [← heq] at hk
        have hfit' : c.toNat + 1 + ps.length ≤ Nat.pow 2 64 := by omega
        exact sequence_not_mem_chunkKeys hfit' (by simpa using hk)
      rw [appendPlain, get?_appendPlain_of_ne (entryKey_ne_own_counter s _) hlater, get?_insert,
        if_pos (by simp)]
      rfl
    | succ j =>
      have hsucc := toNat_succ (c := c) (by omega)
      have hstep : c + UInt64.ofNat (j + 1) = c + 1 + UInt64.ofNat j := by
        rw [UInt64.ofNat_add]
        ac_rfl
      rw [appendPlain, hstep, ih (by omega) (by omega)]
      rfl

/-- After a release, a chunk entry is gone when the released record listed it, and as it was
otherwise. -/
theorem get?_release_entry {κ x : Bytes} :
    (t.release s κ).get? (s.entryKey x) =
      if x ∈ t.refsAt κ then none else t.get? (s.entryKey x) := by
  have hmem : s.entryKey x ∈ (t.refsAt κ).map s.entryKey ↔ x ∈ t.refsAt κ := by
    simp [entryKey_right_inj]
  unfold release
  rw [get?_eraseAll]
  by_cases hx : x ∈ t.refsAt κ
  · rw [if_pos (hmem.2 hx), if_pos hx]
  · rw [if_neg (mt hmem.1 hx), if_neg hx]

end Table

namespace Bucket

variable {s b : Bucket} {t : Table}

/-- In a bucket with no chunk store, a plain write succeeds exactly when the record it replaces
lists no chunks, and then only sets the entry. -/
theorem putPlainIn_unchunked_iff {key value : Bytes} {t' : Table} (hs : s.chunked = false) :
    s.putPlainIn key value t = .ok ((), t') ↔
      t.refsAt (s.entryKey key) = [] ∧ t' = t.insert (s.entryKey key) (0x00 :: value) := by
  constructor
  · intro h
    obtain ⟨_, t₁, hrel, -⟩ := bind_run_eq_ok.1 h
    exact ⟨(releaseChunks_unchunked hs hrel).1, putPlainIn_unchunked hs h⟩
  · rintro ⟨hnil, rfl⟩
    exact bind_run_of_ok (releaseChunks_of_nil hnil)

/-- Appending a plain value to a bucket with no chunk store whose counter reads `c`: it takes
`c` when `c` is below the largest word and the record under `c` lists no chunks. -/
theorem appendPlainIn_eq_ok_iff {value k : Bytes} {t' : Table} {c : UInt64} (hs : s.chunked = false)
    (hc : t.counterAt s.counter = .ok c) :
    s.appendPlainIn value t = .ok (k, t') ↔
      c.toNat + 1 < Nat.pow 2 64 ∧ t.refsAt (s.entryKey (Keys.sequence c)) = [] ∧
        k = Keys.sequence c ∧
        t' = (t.insert s.counter (Keys.sequence (c + 1))).insert (s.entryKey (Keys.sequence c))
          (0x00 :: value) := by
  -- the counter is not the entry, so raising it leaves the entry's chunk list alone
  have hrefs : (t.insert s.counter (Keys.sequence (c + 1))).refsAt (s.entryKey (Keys.sequence c)) =
      t.refsAt (s.entryKey (Keys.sequence c)) := by
    rw [Table.refsAt_insert, if_neg (entryKey_ne_own_counter s _)]
  unfold appendPlainIn
  rw [bind_run_eq_ok]
  constructor
  · rintro ⟨c', t₁, hnext, hrest⟩
    obtain ⟨hc', hfit, rfl⟩ := Txn.nextSequence_eq_ok.1 hnext
    rw [hc, Except.ok.injEq] at hc'
    subst hc'
    obtain ⟨u, t₂, hput, hret⟩ := bind_run_eq_ok.1 hrest
    obtain ⟨rfl, rfl⟩ := Prod.mk.inj (Except.ok.inj hret)
    obtain ⟨hnil, rfl⟩ := (putPlainIn_unchunked_iff hs).1 hput
    exact ⟨hfit, hrefs ▸ hnil, rfl, rfl⟩
  · rintro ⟨hfit, hnil, rfl, rfl⟩
    refine ⟨c, _, Txn.nextSequence_eq_ok.2 ⟨hc, hfit, rfl⟩, ?_⟩
    rw [bind_run_of_ok ((putPlainIn_unchunked_iff hs).2 ⟨hrefs.trans hnil, rfl⟩)]
    rfl

/-- Appending pieces one after another to a bucket with no chunk store whose counter reads
`c`: it succeeds exactly when the run of numbers from `c` stays below the largest word and no
record under those numbers lists chunks, and then hands out `c`, `c + 1`, ... -/
theorem mapM_appendPlainIn_eq_ok_iff {ps keys : List Bytes} {t' : Table} {c : UInt64}
    (hs : s.chunked = false) (hc : t.counterAt s.counter = .ok c) :
    ps.mapM s.appendPlainIn t = .ok (keys, t') ↔
      c.toNat + ps.length < Nat.pow 2 64 ∧
        (∀ x ∈ chunkKeys c ps.length, t.refsAt (s.entryKey x) = []) ∧
        keys = chunkKeys c ps.length ∧ t' = t.appendPlain s c ps := by
  induction ps generalizing t c keys t' with
  | nil =>
    simp only [List.mapM_nil, Txn.pure_run, Except.ok.injEq, Prod.mk.injEq, List.length_nil,
      Nat.add_zero, chunkKeys, List.not_mem_nil, false_imp_iff, implies_true, true_and]
    constructor
    · rintro ⟨rfl, rfl⟩
      exact ⟨c.toNat_lt, rfl, rfl⟩
    · rintro ⟨-, rfl, rfl⟩
      exact ⟨rfl, rfl⟩
  | cons p ps ih =>
    -- after the first piece the counter reads `c + 1`, and the later numbers are not `c`
    set t₁ := (t.insert s.counter (Keys.sequence (c + 1))).insert (s.entryKey (Keys.sequence c))
      (0x00 :: p) with ht₁
    have hc₁ : t₁.counterAt s.counter = .ok (c + 1) := counterAt_append_one s c p
    have hrefs : ∀ x ∈ chunkKeys (c + 1) ps.length, c.toNat + 1 + ps.length ≤ Nat.pow 2 64 →
        t₁.refsAt (s.entryKey x) = t.refsAt (s.entryKey x) := by
      intro x hx hfit
      have hne : s.entryKey x ≠ s.entryKey (Keys.sequence c) := fun h =>
        sequence_not_mem_chunkKeys hfit ((entryKey_right_inj s).1 h ▸ hx)
      rw [ht₁, Table.refsAt_insert, if_neg hne, Table.refsAt_insert,
        if_neg (entryKey_ne_own_counter s x)]
    rw [List.mapM_cons, bind_run_eq_ok]
    constructor
    · rintro ⟨k, t₂, hk, hrest⟩
      obtain ⟨hfit, hnil, rfl, rfl⟩ := (appendPlainIn_eq_ok_iff hs hc).1 hk
      obtain ⟨ks, t₃, hks, hret⟩ := bind_run_eq_ok.1 hrest
      obtain ⟨rfl, rfl⟩ := Prod.mk.inj (Except.ok.inj hret)
      obtain ⟨hfit', hfree, rfl, rfl⟩ := (ih hc₁).1 hks
      have hsucc := toNat_succ hfit
      refine ⟨by simp only [List.length_cons]; omega, ?_, rfl, rfl⟩
      intro x hx
      rcases List.mem_cons.1 hx with rfl | hx
      · exact hnil
      · rw [← hrefs x hx (by omega)]
        exact hfree x hx
    · rintro ⟨hfit, hfree, rfl, rfl⟩
      simp only [List.length_cons] at hfit
      have hsucc := toNat_succ (c := c) (by omega)
      refine ⟨Keys.sequence c, t₁, (appendPlainIn_eq_ok_iff hs hc).2
        ⟨by omega, hfree _ List.mem_cons_self, rfl, rfl⟩, ?_⟩
      have hrest := (ih hc₁).2 ⟨by omega, fun x hx => (hrefs x hx (by omega)).trans
        (hfree x (List.mem_cons_of_mem _ hx)), rfl, rfl⟩
      rw [bind_run_of_ok hrest]
      rfl

/-- A value kept inline, with no split or a split size the value fits: the record is the
envelope of the value and its stored meta, and the table stays as it was. -/
theorem metaRecordIn_inline {value : Bytes} {m : Meta}
    (h : m.splitSize = .ok none ∨
      ∃ size, m.splitSize = .ok (some size) ∧ value.length ≤ size)
    (t : Table) :
    b.metaRecordIn value m t =
      (Envelope.encode ⟨some (m.storedFor value []), value⟩).map (·, t) := by
  unfold metaRecordIn
  rcases h with h | ⟨size, h, hle⟩
  · rw [h, bind_run_of_ok Txn.ofExcept_ok]
    rfl
  · rw [h, bind_run_of_ok Txn.ofExcept_ok]
    dsimp only
    rw [if_neg (by omega)]
    rfl

/-- A value split into pieces of `size` bytes, in a bucket with a chunk store whose counter
reads `c`: the record is built exactly when the pieces can be appended under `c`, `c + 1`, ...
and the meta listing their keys can be packed. -/
theorem metaRecordIn_chunked_iff {value record : Bytes} {m : Meta} {t₁ : Table} {size : Nat}
    {c : UInt64} (hb : b.chunked = true) (hsplit : m.splitSize = .ok (some size))
    (hlt : size < value.length) (hc : t.counterAt (chunks b.space).counter = .ok c) :
    b.metaRecordIn value m t = .ok (record, t₁) ↔
      c.toNat + (Bytes.pieces size value).length < Nat.pow 2 64 ∧
        (∀ x ∈ chunkKeys c (Bytes.pieces size value).length,
          t.refsAt ((chunks b.space).entryKey x) = []) ∧
        Envelope.encode ⟨some (m.storedFor value (chunkKeys c (Bytes.pieces size value).length)),
          []⟩ = .ok record ∧
        t₁ = t.appendPlain (chunks b.space) c (Bytes.pieces size value) := by
  have hstore : Txn.ofExcept b.chunkStore t = .ok (chunks b.space, t) := by
    simp [chunkStore, hb]
  unfold metaRecordIn
  rw [hsplit, bind_run_of_ok Txn.ofExcept_ok]
  dsimp only
  rw [if_pos hlt, bind_run_of_ok hstore, bind_run_eq_ok]
  constructor
  · rintro ⟨keys, t₂, hkeys, henc⟩
    obtain ⟨hfit, hfree, rfl, rfl⟩ := (mapM_appendPlainIn_eq_ok_iff rfl hc).1 hkeys
    obtain ⟨hrec, rfl⟩ := Txn.ofExcept_eq_ok.1 henc
    exact ⟨hfit, hfree, hrec, rfl⟩
  · rintro ⟨hfit, hfree, henc, rfl⟩
    exact ⟨_, _, (mapM_appendPlainIn_eq_ok_iff rfl hc).2 ⟨hfit, hfree, rfl, rfl⟩,
      Txn.ofExcept_eq_ok.2 ⟨henc, rfl⟩⟩

/-- A put with a meta into a bucket with a chunk store builds the record, then writes it over
the released entry. -/
theorem putIn_some_eq_ok_iff (hb : b.chunked = true) {key value : Bytes} {m : Meta}
    {t' : Table} :
    b.putIn key value (some m) t = .ok ((), t') ↔ ∃ record t₁,
      b.metaRecordIn value m t = .ok (record, t₁) ∧
        t' = (t₁.release (chunks b.space) (b.entryKey key)).insert (b.entryKey key) record := by
  rw [putIn_some_eq hb]
  cases b.metaRecordIn value m t with
  | error e => simp [Except.bind]
  | ok r =>
    obtain ⟨record, t₁⟩ := r
    simp [Except.bind, eq_comm]

end Bucket

/-- What a put leaves in the table `t'`, against the table `t` it started from, key by key:
`record` under the entry's key `κ`; in the chunk bucket `store`, each written chunk (its key and
piece) as a plain record, every chunk the replaced record listed removed, and the counter at
`next`; every other key as it was. -/
structure Table.PutLeaves (t t' : Table) (store : Bucket) (κ record : Bytes)
    (written : List (Bytes × Bytes)) (next : UInt64) : Prop where
  entry : t'.get? κ = some record
  chunk : ∀ x p, (x, p) ∈ written → t'.get? (store.entryKey x) = some (0x00 :: p)
  released : ∀ x ∈ t.refsAt κ, t'.get? (store.entryKey x) = none
  counter : t'.counterAt store.counter = .ok next
  others : ∀ a, a ≠ κ → a ≠ store.counter →
    (∀ x, a = store.entryKey x → x ∉ written.map Prod.fst ∧ x ∉ t.refsAt κ) →
      t'.get? a = t.get? a

namespace Table

open Bucket

variable {t : Table} {s : Bucket}

/-- The table a put writes: pieces appended to a bucket `s` from its counter's number `c` on,
the chunks of the record under `κ` released, and `record` written under `κ`, a key of neither
an entry nor the counter of `s`. The record under `κ` lists none of the appended keys, so the
release removes no new chunk. -/
theorem putLeaves_appendPlain {κ record : Bytes} {c : UInt64} {ps : List Bytes}
    (hκ : ∀ x, κ ≠ s.entryKey x) (hκc : κ ≠ s.counter)
    (hc : t.counterAt s.counter = .ok c) (hfit : c.toNat + ps.length < Nat.pow 2 64)
    (hfresh : ∀ x ∈ chunkKeys c ps.length, x ∉ t.refsAt κ) :
    t.PutLeaves (((t.appendPlain s c ps).release s κ).insert κ record) s κ record
      ((chunkKeys c ps.length).zip ps) (c + UInt64.ofNat ps.length) := by
  -- appending leaves the entry's record, so the chunks released are those it listed before
  have hrefs : (t.appendPlain s c ps).refsAt κ = t.refsAt κ :=
    refsAt_congr (get?_appendPlain_of_ne hκc fun k _ => hκ k)
  have hfst : ((chunkKeys c ps.length).zip ps).map Prod.fst = chunkKeys c ps.length :=
    List.map_fst_zip (by simp)
  constructor
  case entry => rw [get?_insert, if_pos rfl]
  case chunk =>
    intro x p hxp
    have hx : x ∉ t.refsAt κ := hfresh x (List.of_mem_zip hxp).1
    obtain ⟨i, hi, hget⟩ := List.mem_iff_getElem.1 hxp
    have hi' : i < ps.length := by simpa using hi
    rw [List.getElem_zip, Prod.mk.injEq] at hget
    obtain ⟨rfl, rfl⟩ := hget
    rw [get?_insert, if_neg (hκ _).symm, get?_release_entry, hrefs, if_neg hx]
    simp only [chunkKeys_eq_range, List.getElem_map, List.getElem_range]
    exact get?_appendPlain_nth (by omega) hi'
  case released =>
    intro x hx
    rw [get?_insert, if_neg (hκ x).symm, get?_release_entry, hrefs, if_pos hx]
  case counter =>
    -- the counter is neither the entry nor a chunk entry, so only the appends move it
    have hentry : (((t.appendPlain s c ps).release s κ).insert κ record).get? s.counter =
        ((t.appendPlain s c ps).release s κ).get? s.counter := by
      rw [get?_insert, if_neg (Ne.symm hκc)]
    have hrel : ((t.appendPlain s c ps).release s κ).get? s.counter =
        (t.appendPlain s c ps).get? s.counter :=
      get?_release_of_ne fun x => (entryKey_ne_own_counter s x).symm
    rw [counterAt_congr (hentry.trans hrel)]
    rcases List.eq_nil_or_concat ps with rfl | ⟨_, _, rfl⟩
    · simpa [appendPlain] using hc
    · obtain ⟨v, hv, hval⟩ := counterAt_appendPlain (by simp) hc hfit
      have hsize : UInt64.size = Nat.pow 2 64 := rfl
      rw [hv]
      congr 1
      apply UInt64.toNat_inj.1
      rw [hval, UInt64.toNat_add, UInt64.toNat_ofNat_of_lt' (by omega)]
      exact (Nat.mod_eq_of_lt (by omega)).symm
  case others =>
    intro a ha hac hchunk
    rw [get?_insert, if_neg ha]
    by_cases hx : ∃ x, a = s.entryKey x
    · obtain ⟨x, rfl⟩ := hx
      obtain ⟨hnew, hold⟩ := hchunk x rfl
      rw [hfst] at hnew
      rw [get?_release_entry, hrefs, if_neg hold]
      exact get?_appendPlain_of_ne hac fun k hk heq =>
        hnew ((entryKey_right_inj s).1 heq ▸ hk)
    · simp only [not_exists] at hx
      rw [get?_release_of_ne hx]
      exact get?_appendPlain_of_ne hac fun k _ => hx k

/-- The table a put of an inline value writes: the chunks of the record under `κ` released and
`record` written under `κ`; the counter stays at `c`. -/
theorem putLeaves_release {κ record : Bytes} {c : UInt64} (hκ : ∀ x, κ ≠ s.entryKey x)
    (hκc : κ ≠ s.counter) (hc : t.counterAt s.counter = .ok c) :
    t.PutLeaves ((t.release s κ).insert κ record) s κ record [] c := by
  have hfit : c.toNat + ([] : List Bytes).length < Nat.pow 2 64 := by simpa using c.toNat_lt
  have h : t.PutLeaves (((t.appendPlain s c []).release s κ).insert κ record) s κ record
      ((chunkKeys c 0).zip []) (c + UInt64.ofNat 0) :=
    putLeaves_appendPlain hκ hκc hc hfit fun x hx => absurd hx List.not_mem_nil
  simpa [appendPlain] using h

end Table

namespace Envelope

/-- An encoded envelope decodes back. -/
theorem decode_of_encode {e : Envelope} {r : Bytes} (h : e.encode = .ok r) : decode r = .ok e := by
  have hd := decode_encode e
  rw [h] at hd
  exact hd

/-- An envelope with a meta is written with the flag 1. -/
theorem head_of_encode_some {m : Meta} {p r : Bytes} (h : encode ⟨some m, p⟩ = .ok r) :
    r.head? = some 0x01 := by
  have hfit := (encode_isOk_iff ⟨some m, p⟩).1 ⟨r, h⟩ m rfl
  rw [encode_some_of_lt p hfit, Except.ok.injEq] at h
  rw [← h]
  rfl

end Envelope

namespace Meta

/-- A chunk size that is not negative and has no bytes asks for no split. -/
theorem splitSize_of_chunkBytes_zero {m : Meta} (hnn : 0 ≤ m.chunkSize) (h0 : m.chunkBytes = 0) :
    m.splitSize = .ok none := by
  have hint : 0 ≤ m.chunkSize.toInt := by simpa using Int64.le_iff_toInt_le.1 hnn
  have hzero : m.chunkSize = 0 := Int64.toInt_inj.1 (by unfold chunkBytes at h0; simp; omega)
  simp [splitSize, hzero]

/-- A positive chunk size splits by its number of bytes. -/
theorem splitSize_of_chunkBytes_pos {m : Meta} (h : 0 < m.chunkBytes) :
    m.splitSize = .ok (some m.chunkBytes) :=
  splitSize_eq_some.2 ⟨by unfold chunkBytes at h; omega, rfl⟩

/-- The meta of a value split by its chunk size, listing one key per piece, passes the layout
check, with the value's length as the total: `⌈L / C⌉` chunks of `C` bytes hold `L` bytes. -/
theorem layout_storedFor_pieces {m : Meta} {value : Bytes} {keys : List Bytes}
    (hsize : 0 < m.chunkBytes) (hne : value ≠ []) (hlen : value.length < Nat.pow 2 64)
    (hcount : keys.length = (Bytes.pieces m.chunkBytes value).length) :
    (m.storedFor value keys).layout = .ok (value.length, m.chunkBytes) := by
  have htotal : (UInt64.ofNat value.length).toNat = value.length := UInt64.toNat_ofNat_of_lt' hlen
  obtain ⟨hlo, hhi⟩ := Bytes.length_pieces_bounds hsize hne
  rw [layout_eq_ok]
  refine ⟨by unfold chunkBytes at hsize; exact (by omega : (0 : Int) < m.chunkSize.toInt), rfl,
    htotal.symm, ?_, ?_⟩
  · simpa only [storedFor, hcount] using hlo
  · simpa only [storedFor, hcount] using hhi

end Meta

namespace Bucket

variable {b : Bucket} {t : Table} {sp value : Bytes} {m : Meta} {c : UInt64}

/-- A put whose value is split: it succeeds exactly when the run of chunk numbers from `c` stays
below the largest word, no record under those numbers lists chunks, and the meta listing them
packs. When the record it replaces lists none of those numbers, it then leaves the pieces under
`c`, `c + 1`, ..., and the meta under the key. -/
theorem putIn_split (key : Bytes) (hb : b.IsData sp) (hpos : 0 < m.chunkBytes)
    (hlt : m.chunkBytes < value.length)
    (hlen : value.length < Nat.pow 2 64) (hc : t.counterAt (chunks sp).counter = .ok c) :
    let ps := Bytes.pieces m.chunkBytes value
    let keys := chunkKeys c ps.length
    ((∃ t', b.putIn key value (some m) t = .ok ((), t')) ↔
      c.toNat + ps.length < Nat.pow 2 64 ∧
        (∀ x ∈ keys, t.refsAt ((chunks sp).entryKey x) = []) ∧
        (m.storedFor value keys).pack.length < Nat.pow 2 32) ∧
    ((∀ x ∈ keys, x ∉ t.refsAt (b.entryKey key)) →
    ∀ t', b.putIn key value (some m) t = .ok ((), t') →
      ∃ record, t.PutLeaves t' (chunks sp) (b.entryKey key) record (keys.zip ps)
          (c + UInt64.ofNat ps.length) ∧
        Envelope.decode record = .ok ⟨some (m.storedFor value keys), []⟩ ∧
        record.head? = some 0x01 ∧
        (m.storedFor value keys).layout = .ok (value.length, m.chunkBytes)) := by
  intro ps keys
  have hsplit := Meta.splitSize_of_chunkBytes_pos hpos
  have hc' : t.counterAt (chunks b.space).counter = .ok c := hb.space ▸ hc
  have hrec : ∀ record t₁, b.metaRecordIn value m t = .ok (record, t₁) ↔
      c.toNat + ps.length < Nat.pow 2 64 ∧
        (∀ x ∈ keys, t.refsAt ((chunks sp).entryKey x) = []) ∧
        Envelope.encode ⟨some (m.storedFor value keys), []⟩ = .ok record ∧
        t₁ = t.appendPlain (chunks sp) c ps := by
    intro record t₁
    rw [← hb.space]
    exact metaRecordIn_chunked_iff hb.chunked hsplit hlt hc'
  constructor
  · constructor
    · rintro ⟨t', ht'⟩
      obtain ⟨record, t₁, hmeta, -⟩ := (putIn_some_eq_ok_iff hb.chunked).1 ht'
      obtain ⟨hfit, hfree, henc, -⟩ := (hrec record t₁).1 hmeta
      exact ⟨hfit, hfree, (Envelope.encode_isOk_iff _).1 ⟨record, henc⟩ _ rfl⟩
    · rintro ⟨hfit, hfree, hpack⟩
      obtain ⟨record, henc⟩ :=
        (Envelope.encode_isOk_iff ⟨some (m.storedFor value keys), []⟩).2
          fun m' hm' => by cases hm'; exact hpack
      have hmeta := (hrec record _).2 ⟨hfit, hfree, henc, rfl⟩
      exact ⟨_, (putIn_some_eq_ok_iff hb.chunked).2 ⟨record, _, hmeta, rfl⟩⟩
  · intro hfresh t' ht'
    obtain ⟨record, t₁, hmeta, rfl⟩ := (putIn_some_eq_ok_iff hb.chunked).1 ht'
    obtain ⟨hfit, -, henc, rfl⟩ := (hrec record t₁).1 hmeta
    have hne : value ≠ [] := List.ne_nil_of_length_pos (by omega)
    refine ⟨record, ?_, Envelope.decode_of_encode henc, Envelope.head_of_encode_some henc,
      Meta.layout_storedFor_pieces hpos hne hlen (length_chunkKeys _ _)⟩
    rw [hb.space]
    exact Table.putLeaves_appendPlain (hb.entryKey_ne_chunk key) (hb.entryKey_ne_chunkCounter key)
      hc hfit hfresh

/-- On a namespace whose chunks are owned, as every write of the store keeps them, a put whose
value is split leaves its layout whatever record it replaces: the chunk numbers it takes from
the counter are listed by no entry. -/
theorem putIn_split_owned (key : Bytes) (hb : b.IsData sp) (hown : OwnedChunks sp t)
    (hpos : 0 < m.chunkBytes) (hlt : m.chunkBytes < value.length)
    (hlen : value.length < Nat.pow 2 64) (hc : t.counterAt (chunks sp).counter = .ok c)
    {t' : Table} (hput : b.putIn key value (some m) t = .ok ((), t')) :
    let ps := Bytes.pieces m.chunkBytes value
    ∃ record, t.PutLeaves t' (chunks sp) (b.entryKey key) record
      ((chunkKeys c ps.length).zip ps) (c + UInt64.ofNat ps.length) := by
  intro ps
  have h := putIn_split key hb hpos hlt hlen hc
  obtain ⟨hfit, -, -⟩ := h.1.1 ⟨t', hput⟩
  have hfresh := hown.unlisted_chunkKeys ⟨b, key, hb, rfl⟩ hc (Nat.le_of_lt hfit)
  obtain ⟨record, hleaves, -⟩ := h.2 hfresh t' hput
  exact ⟨record, hleaves⟩

/-- A put whose value stays inline: it succeeds exactly when the meta packs, writes no chunk,
and leaves the value with its meta under the key. -/
theorem putIn_inline (key : Bytes) (hb : b.IsData sp)
    (hsplit : m.splitSize = .ok none ∨
      ∃ size, m.splitSize = .ok (some size) ∧ value.length ≤ size)
    (hc : t.counterAt (chunks sp).counter = .ok c) :
    ((∃ t', b.putIn key value (some m) t = .ok ((), t')) ↔
      (m.storedFor value []).pack.length < Nat.pow 2 32) ∧
    ∀ t', b.putIn key value (some m) t = .ok ((), t') →
      ∃ record, t.PutLeaves t' (chunks sp) (b.entryKey key) record [] c ∧
        Envelope.decode record = .ok ⟨some (m.storedFor value []), value⟩ ∧
        record.head? = some 0x01 := by
  have hrec : ∀ record t₁, b.metaRecordIn value m t = .ok (record, t₁) ↔
      Envelope.encode ⟨some (m.storedFor value []), value⟩ = .ok record ∧ t₁ = t := by
    intro record t₁
    rw [metaRecordIn_inline hsplit]
    cases Envelope.encode ⟨some (m.storedFor value []), value⟩ <;> simp [Except.map, eq_comm]
  constructor
  · constructor
    · rintro ⟨t', ht'⟩
      obtain ⟨record, t₁, hmeta, -⟩ := (putIn_some_eq_ok_iff hb.chunked).1 ht'
      exact (Envelope.encode_isOk_iff _).1 ⟨record, ((hrec record t₁).1 hmeta).1⟩ _ rfl
    · intro hpack
      obtain ⟨record, henc⟩ :=
        (Envelope.encode_isOk_iff ⟨some (m.storedFor value []), value⟩).2
          fun m' hm' => by cases hm'; exact hpack
      exact ⟨_, (putIn_some_eq_ok_iff hb.chunked).2
        ⟨record, t, (hrec record t).2 ⟨henc, rfl⟩, rfl⟩⟩
  · intro t' ht'
    obtain ⟨record, t₁, hmeta, rfl⟩ := (putIn_some_eq_ok_iff hb.chunked).1 ht'
    obtain ⟨henc, rfl⟩ := (hrec record t₁).1 hmeta
    refine ⟨record, ?_, Envelope.decode_of_encode henc, Envelope.head_of_encode_some henc⟩
    rw [hb.space]
    exact Table.putLeaves_release (hb.entryKey_ne_chunk key) (hb.entryKey_ne_chunkCounter key) hc

/-- A put with no meta always succeeds, and leaves the plain record of the value under the key. -/
theorem putIn_plain (key : Bytes) (hb : b.IsData sp)
    (hc : t.counterAt (chunks sp).counter = .ok c) :
    ∃ t', b.putIn key value none t = .ok ((), t') ∧
      t.PutLeaves t' (chunks sp) (b.entryKey key) (0x00 :: value) [] c := by
  refine ⟨_, putPlainIn_eq hb.chunked key value t, ?_⟩
  rw [hb.space]
  exact Table.putLeaves_release (hb.entryKey_ne_chunk key) (hb.entryKey_ne_chunkCounter key) hc

end Bucket

/-- The layout a put writes into a bucket with a chunk store, for a value `P` shorter than
2^64 bytes, a meta `m` whose chunk size `C` is not negative, and the chunk bucket's counter at
`c` before the call (`Table.PutLeaves` says what each key then holds):

* for `0 < C < |P|`, the put succeeds exactly when the `n = ⌈|P| / C⌉` numbers from `c` stay
  below the largest word, no record under them lists chunks, and the meta packs. When the
  replaced record lists none of the `n` keys, it leaves chunk `i` under `c + i` as the plain
  record of `P[i*C ..]` cut to `C` bytes; the counter at `c + n`; and under the key a record
  with the flag 1, no inline payload, and the caller's meta with total length `|P|` and the `n`
  keys in order, which the layout check accepts;
* for `C = 0` or `C ≥ |P|`, the put succeeds exactly when the meta packs; it writes no chunk,
  leaves the counter alone, and keeps `P` inline under the key with the meta of total length
  `|P|` and no chunks, whatever chunks the caller's meta listed;
* with no meta, it stores the plain record of `P`. -/
theorem chunked_put_layout {sp key value : Bytes} {m : Meta} {b : Bucket} {t : Table} {c : UInt64}
    (hb : b.IsData sp) (hsize : 0 ≤ m.chunkSize) (hlen : value.length < Nat.pow 2 64)
    (hc : t.counterAt (Bucket.chunks sp).counter = .ok c) :
    let size := m.chunkBytes
    let count := (value.length + size - 1) / size
    let keys := (List.range count).map fun i => Keys.sequence (c + UInt64.ofNat i)
    let pieces := (List.range count).map fun i => (value.drop (i * size)).take size
    (0 < size → size < value.length →
      ((∃ t', b.putIn key value (some m) t = .ok ((), t')) ↔
        c.toNat + count < Nat.pow 2 64 ∧
          (∀ x ∈ keys, t.refsAt ((Bucket.chunks sp).entryKey x) = []) ∧
          (m.storedFor value keys).pack.length < Nat.pow 2 32) ∧
      ((∀ x ∈ keys, x ∉ t.refsAt (b.entryKey key)) →
      ∀ t', b.putIn key value (some m) t = .ok ((), t') →
        ∃ record, t.PutLeaves t' (Bucket.chunks sp) (b.entryKey key) record (keys.zip pieces)
            (c + UInt64.ofNat count) ∧
          Envelope.decode record = .ok ⟨some (m.storedFor value keys), []⟩ ∧
          record.head? = some 0x01 ∧ (m.storedFor value keys).layout = .ok (value.length, size))) ∧
    (size = 0 ∨ value.length ≤ size →
      ((∃ t', b.putIn key value (some m) t = .ok ((), t')) ↔
        (m.storedFor value []).pack.length < Nat.pow 2 32) ∧
      ∀ t', b.putIn key value (some m) t = .ok ((), t') →
        ∃ record, t.PutLeaves t' (Bucket.chunks sp) (b.entryKey key) record [] c ∧
          Envelope.decode record = .ok ⟨some (m.storedFor value []), value⟩ ∧
          record.head? = some 0x01) ∧
    (∃ t', b.putIn key value none t = .ok ((), t') ∧
      t.PutLeaves t' (Bucket.chunks sp) (b.entryKey key) (0x00 :: value) [] c) := by
  intro size count keys pieces
  refine ⟨fun hpos hlt => ?_, fun hinline => ?_, Bucket.putIn_plain key hb hc⟩
  · -- the pieces and their keys, counted as the ceiling of `|P| / C`
    have hps : Bytes.pieces size value = pieces := Bytes.pieces_eq_range hpos value
    have hcount : pieces.length = count := by simp [pieces]
    have hkeys : Bucket.chunkKeys c count = keys := Bucket.chunkKeys_eq_range c count
    have h := Bucket.putIn_split key hb hpos hlt hlen hc
    dsimp only at h
    rw [hps, hcount, hkeys] at h
    exact h
  · -- no split, or a value that fits one chunk
    have hsplit : m.splitSize = .ok none ∨
        ∃ size, m.splitSize = .ok (some size) ∧ value.length ≤ size := by
      rcases Nat.eq_zero_or_pos size with h0 | hpos
      · exact .inl (Meta.splitSize_of_chunkBytes_zero hsize h0)
      · exact .inr ⟨size, Meta.splitSize_of_chunkBytes_pos hpos,
          hinline.resolve_left (by omega)⟩
    exact Bucket.putIn_inline key hb hsplit hc

/-- `abcdef` put in chunks of four bytes into the object bucket of `ns` on an empty store: the
put succeeds and leaves `abcd` under chunk number 0 and `ef` under chunk number 1. -/
theorem chunked_put_sample :
    (Bucket.objects Sample.space).IsData Sample.space ∧ (0 : Int64) ≤ 4 ∧
      [0x61, 0x62, 0x63, 0x64, 0x65, 0x66].length < Nat.pow 2 64 ∧
      Table.empty.counterAt (Bucket.chunks Sample.space).counter = .ok 0 ∧
      (∀ x ∈ [Keys.sequence 0, Keys.sequence 1],
        x ∉ Table.empty.refsAt ((Bucket.objects Sample.space).entryKey [0x61])) ∧
      ∃ t', (Bucket.objects Sample.space).putIn [0x61] [0x61, 0x62, 0x63, 0x64, 0x65, 0x66]
          (some { chunkSize := 4 }) Table.empty = .ok ((), t') ∧
        t'.get? ((Bucket.chunks Sample.space).entryKey (Keys.sequence 0)) =
          some [0x00, 0x61, 0x62, 0x63, 0x64] ∧
        t'.get? ((Bucket.chunks Sample.space).entryKey (Keys.sequence 1)) = some [0x00, 0x65, 0x66] := by
  have hb : (Bucket.objects Sample.space).IsData Sample.space := .inr (.inl rfl)
  have hc : Table.empty.counterAt (Bucket.chunks Sample.space).counter = .ok 0 := by
    simp [Table.counterAt]
  have hfresh : ∀ x ∈ [Keys.sequence 0, Keys.sequence 1],
      x ∉ Table.empty.refsAt ((Bucket.objects Sample.space).entryKey [0x61]) := by
    decide
  have h := (@chunked_put_layout Sample.space [0x61] [0x61, 0x62, 0x63, 0x64, 0x65, 0x66]
    { chunkSize := 4 } _ Table.empty 0 hb (by decide) (by decide) hc).1 (by decide) (by decide)
  obtain ⟨t', ht'⟩ := h.1.2 ⟨by decide, by decide, by decide⟩
  obtain ⟨record, hleaves, -⟩ := h.2 hfresh t' ht'
  refine ⟨hb, by decide, by decide, hc, hfresh, t', ht', ?_, ?_⟩
  · exact hleaves.chunk _ _ (by decide)
  · exact hleaves.chunk _ _ (by decide)

namespace Sample

/-- A store whose only record is the chunk counter of `ns`, two below the end of the words. -/
def nearlyExhausted : Table :=
  Table.empty.insert (Bucket.chunks space).counter (Keys.sequence 0xfffffffffffffffe)

end Sample

/-- With the chunk counter of `ns` at `2^64 - 2`, a put of `abcdef` in chunks of four bytes
would need the numbers `2^64 - 2` and `2^64 - 1` and leave the counter past the largest word:
it is refused. -/
theorem chunked_put_refused_past_last_number :
    ¬ ∃ t', (Bucket.objects Sample.space).putIn [0x61] [0x61, 0x62, 0x63, 0x64, 0x65, 0x66]
        (some { chunkSize := 4 }) Sample.nearlyExhausted = .ok ((), t') := by
  have hb : (Bucket.objects Sample.space).IsData Sample.space := .inr (.inl rfl)
  have hc : Sample.nearlyExhausted.counterAt (Bucket.chunks Sample.space).counter =
      .ok 0xfffffffffffffffe := by
    simp [Sample.nearlyExhausted, Table.counterAt, Keys.readSequence_sequence]
  have hpos : 0 < ({ chunkSize := 4 } : Meta).chunkBytes := by decide
  have hlt : ({ chunkSize := 4 } : Meta).chunkBytes <
      ([0x61, 0x62, 0x63, 0x64, 0x65, 0x66] : Bytes).length := by decide
  have h := Bucket.putIn_split [0x61] hb hpos hlt (by decide) hc
  -- the pieces in their closed form, which evaluates
  dsimp only at h
  rw [Bytes.pieces_eq_range hpos] at h
  intro hput
  obtain ⟨hfit, -⟩ := h.1.1 hput
  exact absurd hfit (by decide)

end ArchiveStore
