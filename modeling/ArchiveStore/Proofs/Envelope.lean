import ArchiveStore.Record.Envelope
import ArchiveStore.Proofs.Packed

/-!
# The envelope format

An envelope is the flag 0 followed by the payload, or the flag 1, the length `L` of the meta in
four bytes (most significant first), `L` bytes holding the packed meta and possibly bytes the
reader ignores, then the payload. `Envelope.Layout` writes this grammar down, with the meta
described by its writer `Meta.pack` rather than by the reader.

## Main results

* `Envelope.decode_encode`: encoding then decoding gives the envelope back, whenever encoding
  gives a record; `Envelope.encode_isOk_iff`: it does unless the packed meta needs more than
  32 bits of length.
* `Envelope.decode_eq_ok_iff`: decoding accepts exactly the records of the grammar, and returns
  the meta and payload the grammar assigns.
* `Envelope.encode_decode`: a decoded record encodes back to itself when it is plain or its
  meta fills the whole meta region.
* `envelope_codec_exact`: the three together.
-/

namespace ArchiveStore

namespace Envelope

/-- The meta length a flag-1 record announces: its bytes 1 to 4, most significant first. -/
def metaLength (b : Bytes) : Nat := Bytes.toNatBE ((b.drop 1).take 4)

/-- The grammar of records, and the envelope each one holds: the flag 0 and the payload, or
the flag 1 and four bytes announcing a length `L` that fits what follows them, of which the
first `L` bytes start with a packed meta and the rest is the payload. -/
def Layout (b : Bytes) (e : Envelope) : Prop :=
  (b = 0x00 :: e.payload ∧ e.info = none) ∨
  ∃ rest m tail, b = 0x01 :: rest ∧ 4 ≤ rest.length ∧
    Bytes.toNatBE (rest.take 4) ≤ rest.length - 4 ∧
    (rest.drop 4).take (Bytes.toNatBE (rest.take 4)) = m.pack ++ tail ∧
    e = ⟨some m, rest.drop (4 + Bytes.toNatBE (rest.take 4))⟩

/-- A meta whose packed form fits 32 bits of length is written with its length in front. -/
theorem encode_some_of_lt {m : Meta} (p : Bytes) (h : m.pack.length < Nat.pow 2 32) :
    encode ⟨some m, p⟩ = .ok (0x01 :: Bytes.ofNatBE 4 m.pack.length ++ m.pack ++ p) := by
  simp only [encode, h, if_true]

/-- Encoding fails exactly on a meta whose packed form needs more than 32 bits of length. -/
theorem encode_isOk_iff (e : Envelope) :
    (∃ r, e.encode = .ok r) ↔ ∀ m, e.info = some m → m.pack.length < Nat.pow 2 32 := by
  obtain ⟨info, p⟩ := e
  cases info with
  | none => simp [encode]
  | some m =>
    by_cases h : m.pack.length < Nat.pow 2 32
    · simp [encode_some_of_lt p h, h]
    · simp [encode, h]

/-- The record of a meta and a payload decodes to them. -/
theorem decode_meta_record {m : Meta} (p : Bytes) (h : m.pack.length < Nat.pow 2 32) :
    decode (0x01 :: Bytes.ofNatBE 4 m.pack.length ++ m.pack ++ p) = .ok ⟨some m, p⟩ := by
  have hlen : Bytes.toNatBE (Bytes.ofNatBE 4 m.pack.length) = m.pack.length := by
    rw [Bytes.toNatBE_ofNatBE, Nat.mod_eq_of_lt (by simpa [Nat.pow_eq] using h)]
  have hreader : Meta.reader.parse m.pack = .ok m := by
    rw [Meta.parse_eq_ok_iff (by simp only [Nat.pow_eq] at h ⊢; omega)]
    exact ⟨[], (List.append_nil _).symm⟩
  simp only [decode, List.cons_append, List.append_assoc, List.length_append,
    Bytes.length_ofNatBE, List.take_left', List.drop_left', hlen, hreader]
  rw [if_neg (by omega), if_neg (by omega)]

/-- Encoding then decoding gives the envelope back, whenever encoding gives a record. -/
theorem decode_encode (e : Envelope) :
    (e.encode >>= decode) = e.encode.map fun _ => e := by
  obtain ⟨info, p⟩ := e
  cases info with
  | none => rfl
  | some m =>
    by_cases h : m.pack.length < Nat.pow 2 32
    · rw [encode_some_of_lt p h]
      exact decode_meta_record p h
    · simp [encode, h]
      rfl

/-- Decoding accepts exactly the records of the grammar, and returns the envelope the grammar
assigns. -/
theorem decode_eq_ok_iff (b : Bytes) (e : Envelope) : decode b = .ok e ↔ Layout b e := by
  unfold decode
  split
  case h_1 => simp [Layout]
  case h_2 rest =>
    obtain ⟨info, p⟩ := e
    simp [Layout, eq_comm, and_comm]
  case h_4 flag rest h0 h1 =>
    simp only [Layout, List.cons.injEq, reduceCtorEq, false_iff, not_or, not_and, not_exists]
    exact ⟨fun h => (h0 h.1).elim, fun _ _ _ h => (h1 h.1).elim⟩
  case h_3 rest =>
    have h10 : (0x01 : UInt8) ≠ 0x00 := by decide
    simp only [Layout, List.cons.injEq, h10, false_and, false_or, true_and, exists_and_left,
      exists_eq_left']
    have hL := Bytes.toNatBE_lt (rest.take 4)
    generalize Bytes.toNatBE (rest.take 4) = L at hL ⊢
    -- the two length checks, then the meta itself
    by_cases hshort : rest.length < 4
    · rw [if_pos hshort]
      simp only [reduceCtorEq, false_iff, not_and]
      intro h
      omega
    rw [if_neg hshort]
    have hlen4 : (rest.take 4).length = 4 := by simp; omega
    rw [hlen4] at hL
    by_cases hfit : (rest.drop 4).length < L
    · rw [if_pos hfit]
      simp only [reduceCtorEq, false_iff, not_and]
      intro _ h
      simp only [List.length_drop] at hfit
      omega
    rw [if_neg hfit]
    have hregion : ((rest.drop 4).take L).length < Nat.pow 256 8 := by
      simp only [List.length_take, Nat.pow_eq] at hL ⊢
      omega
    cases hp : Meta.reader.parse ((rest.drop 4).take L) with
    | error err =>
      simp only [reduceCtorEq, false_iff, not_and, not_exists]
      intro _ _ m tail hm _
      have hok := (Meta.parse_eq_ok_iff hregion).2 ⟨tail, hm⟩
      rw [hp] at hok
      cases hok
    | ok m =>
      simp only [Except.ok.injEq]
      constructor
      · rintro rfl
        obtain ⟨tail, hm⟩ := (Meta.parse_eq_ok_iff hregion).1 hp
        simp only [List.length_drop] at hfit
        exact ⟨by omega, by omega, m, tail, hm, by rw [List.drop_drop]⟩
      · rintro ⟨_, _, m', tail, hm', rfl⟩
        have hok := (Meta.parse_eq_ok_iff hregion).2 ⟨tail, hm'⟩
        rw [hp] at hok
        cases hok
        rw [List.drop_drop]

/-- A decoded record encodes back to itself when it is plain, or when its meta fills the
whole region its length announces; otherwise the ignored bytes are lost. -/
theorem encode_decode {b : Bytes} {e : Envelope} (h : decode b = .ok e)
    (hfill : b.head? = some 0x00 ∨ ∃ m, e.info = some m ∧ m.pack.length = metaLength b) :
    e.encode = .ok b := by
  rcases (decode_eq_ok_iff b e).1 h with ⟨rfl, hnone⟩ | ⟨rest, m, tail, rfl, h4, hfit, hm, rfl⟩
  · obtain ⟨info, p⟩ := e
    cases hnone
    rfl
  · -- the meta fills its region, so nothing after it is ignored
    have hL : metaLength (0x01 :: rest) = Bytes.toNatBE (rest.take 4) := rfl
    obtain ⟨m', hm', hpack⟩ : ∃ m', some m = some m' ∧ m'.pack.length = metaLength (0x01 :: rest) := by
      rcases hfill with hzero | hfull
      · cases hzero
      · exact hfull
    cases hm'
    rw [hL] at hpack
    have htail : tail = [] := by
      have hlen := congrArg List.length hm
      simp only [List.length_take, List.length_drop, List.length_append] at hlen
      exact List.eq_nil_of_length_eq_zero (by omega)
    subst htail
    have hsmall : m.pack.length < Nat.pow 2 32 := by
      have := Bytes.toNatBE_lt (rest.take 4)
      simp only [List.length_take, Nat.pow_eq] at this ⊢
      rw [hpack, show min 4 rest.length = 4 by omega] at *
      omega
    rw [encode_some_of_lt _ hsmall, hpack]
    have hfour : Bytes.ofNatBE 4 (Bytes.toNatBE (rest.take 4)) = rest.take 4 := by
      have := Bytes.ofNatBE_toNatBE (rest.take 4)
      rwa [List.length_take, show min 4 rest.length = 4 by omega] at this
    rw [hfour, List.append_nil] at *
    rw [← hm, ← List.drop_drop]
    simp only [List.cons_append, List.append_assoc, List.take_append_drop]

end Envelope

/-- The envelope codec: encoding then decoding is the identity whenever encoding succeeds,
which it does unless a meta needs more than 32 bits of length; decoding accepts exactly the
records of `Envelope.Layout`; and decoding then encoding is the identity on plain records and
on records whose meta fills its region. -/
theorem envelope_codec_exact :
    (∀ e : Envelope, (e.encode >>= Envelope.decode) = e.encode.map fun _ => e) ∧
    (∀ e : Envelope,
      (∃ r, e.encode = .ok r) ↔ ∀ m, e.info = some m → m.pack.length < Nat.pow 2 32) ∧
    (∀ b e, Envelope.decode b = .ok e ↔ Envelope.Layout b e) ∧
    (∀ b e, Envelope.decode b = .ok e →
      (b.head? = some 0x00 ∨ ∃ m, e.info = some m ∧ m.pack.length = Envelope.metaLength b) →
      e.encode = .ok b) :=
  ⟨Envelope.decode_encode, Envelope.encode_isOk_iff, Envelope.decode_eq_ok_iff,
    fun _ _ h hfill => Envelope.encode_decode h hfill⟩

end ArchiveStore
