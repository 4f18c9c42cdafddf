import ArchiveStore.Text.Utf8

/-!
# UTF-8 decoding inverts encoding

The strict decoder `Utf8.decode?` reads exactly the encodings of texts: the encoding of a text
decodes back to it, and whatever decodes to a text is that text's encoding. The second half is
what makes a stored text canonical: no overlong form, surrogate or out-of-range sequence gets
through, because the decoder narrows the second byte after `E0`, `ED`, `F0` and `F4`.

Both halves are proved one character at a time. The four `lead_*` lemmas say how the decoder
reads the first character of each length, and the four `encodeChar_ofNat_*` lemmas that the
character it produces encodes to exactly the bytes it consumed.

## Main results

* `Utf8.decode_ofString`: the encoding of a text decodes to the text.
* `Utf8.eq_ofString_of_decode`: a byte string that decodes to a text is its encoding.
-/

namespace ArchiveStore

/-- The UTF-8 encoding of a text is the concatenation of the encodings of its characters. -/
theorem Bytes.ofString_eq_flatMap (s : String) :
    Bytes.ofString s = s.toList.flatMap String.utf8EncodeChar := by
  rw [Bytes.ofString, String.toUTF8_eq_toByteArray, ← String.utf8Encode_toList, List.utf8Encode,
    List.toList_data_toByteArray]

namespace Utf8

/-- A scalar value read back as a character keeps its number. -/
theorem toNat_ofNat_of_valid {n : Nat} (h : n.isValidChar) : (Char.ofNat n).toNat = n := by
  rw [Char.ofNat, dif_pos h]
  rfl

/-- A byte is determined by its number. -/
theorem uint8_ofNat_eq {n : Nat} {b : UInt8} (h : n % 256 = b.toNat) : UInt8.ofNat n = b := by
  rw [← UInt8.toNat_inj, UInt8.toNat_ofNat', h]

/-- A byte's number below 256 survives the round trip through `UInt8`. -/
theorem toNat_uint8_ofNat {n : Nat} (h : n < 256) : (UInt8.ofNat n).toNat = n := by
  simp; omega

/-- Continuation bytes are `80..BF`. -/
theorem isContinuation_iff (b : UInt8) :
    isContinuation b = true ↔ 0x80 ≤ b.toNat ∧ b.toNat ≤ 0xBF := by
  simp [isContinuation, UInt8.le_iff_toNat_le]

/-- The second byte of a sequence is a continuation byte, narrowed after `E0`, `ED`, `F0` and
`F4`. -/
theorem secondFits_iff (b0 b1 : UInt8) :
    secondFits b0 b1 = true ↔ 0x80 ≤ b1.toNat ∧ b1.toNat ≤ 0xBF ∧
      (b0.toNat = 0xE0 → 0xA0 ≤ b1.toNat) ∧ (b0.toNat = 0xED → b1.toNat ≤ 0x9F) ∧
      (b0.toNat = 0xF0 → 0x90 ≤ b1.toNat) ∧ (b0.toNat = 0xF4 → b1.toNat ≤ 0x8F) := by
  have := b1.toNat_lt
  by_cases hE0 : b0 = 0xE0
  · subst hE0; simp [secondFits, secondRange, UInt8.le_iff_toNat_le]; omega
  by_cases hED : b0 = 0xED
  · subst hED; simp [secondFits, secondRange, UInt8.le_iff_toNat_le]; omega
  by_cases hF0 : b0 = 0xF0
  · subst hF0; simp [secondFits, secondRange, UInt8.le_iff_toNat_le]; omega
  by_cases hF4 : b0 = 0xF4
  · subst hF4; simp [secondFits, secondRange, UInt8.le_iff_toNat_le]; omega
  have nE0 : b0.toNat ≠ 0xE0 := fun h => hE0 (UInt8.toNat_inj.1 h)
  have nED : b0.toNat ≠ 0xED := fun h => hED (UInt8.toNat_inj.1 h)
  have nF0 : b0.toNat ≠ 0xF0 := fun h => hF0 (UInt8.toNat_inj.1 h)
  have nF4 : b0.toNat ≠ 0xF4 := fun h => hF4 (UInt8.toNat_inj.1 h)
  simp [secondFits, secondRange, UInt8.le_iff_toNat_le, ← UInt8.toNat_inj, nE0, nED, nF0, nF4]

/-! ## Reading one character -/

/-- An ASCII byte is a character of its own. -/
theorem lead_one {b0 : UInt8} (rest : Bytes) (h0 : b0.toNat < 0x80) :
    lead (b0 :: rest) = .char (Char.ofNat b0.toNat) rest (tail_shorter b0 rest) := by
  simp only [lead]
  rw [if_pos (UInt8.lt_iff_toNat_lt.2 h0)]

/-- A lead byte `C2..DF` and a continuation byte make a character. -/
theorem lead_two {b0 b1 : UInt8} (rest : Bytes) (h0 : 0xC2 ≤ b0.toNat) (h0' : b0.toNat < 0xE0)
    (h1 : isContinuation b1) :
    lead (b0 :: b1 :: rest) =
      .char (Char.ofNat ((b0.toNat % 32) * 64 + payload b1)) rest
        (tail_shorter_two b0 b1 rest) := by
  simp only [lead]
  rw [if_neg (by simp [UInt8.lt_iff_toNat_lt]; omega),
    if_neg (by simp [UInt8.lt_iff_toNat_lt]; omega),
    if_pos (by simp [UInt8.lt_iff_toNat_lt]; omega), if_pos h1]

/-- A lead byte `E0..EF`, a fitting second byte and a continuation byte make a character. -/
theorem lead_three {b0 b1 b2 : UInt8} (rest : Bytes) (h0 : 0xE0 ≤ b0.toNat)
    (h0' : b0.toNat < 0xF0) (h1 : secondFits b0 b1) (h2 : isContinuation b2) :
    lead (b0 :: b1 :: b2 :: rest) =
      .char (Char.ofNat ((b0.toNat % 16) * 4096 + payload b1 * 64 + payload b2)) rest
        (tail_shorter_three b0 b1 b2 rest) := by
  simp only [lead]
  rw [if_neg (by simp [UInt8.lt_iff_toNat_lt]; omega),
    if_neg (by simp [UInt8.lt_iff_toNat_lt]; omega),
    if_neg (by simp [UInt8.lt_iff_toNat_lt]; omega),
    if_pos (by simp [UInt8.lt_iff_toNat_lt]; omega)]
  simp [h1, h2]

/-- A lead byte `F0..F4`, a fitting second byte and two continuation bytes make a character. -/
theorem lead_four {b0 b1 b2 b3 : UInt8} (rest : Bytes) (h0 : 0xF0 ≤ b0.toNat)
    (h0' : b0.toNat < 0xF5) (h1 : secondFits b0 b1) (h2 : isContinuation b2)
    (h3 : isContinuation b3) :
    lead (b0 :: b1 :: b2 :: b3 :: rest) =
      .char (Char.ofNat ((b0.toNat % 8) * 262144 + payload b1 * 4096 + payload b2 * 64
        + payload b3)) rest (tail_shorter_four b0 b1 b2 b3 rest) := by
  simp only [lead]
  rw [if_neg (by simp [UInt8.lt_iff_toNat_lt]; omega),
    if_neg (by simp [UInt8.lt_iff_toNat_lt]; omega),
    if_neg (by simp [UInt8.lt_iff_toNat_lt]; omega),
    if_neg (by simp [UInt8.lt_iff_toNat_lt]; omega),
    if_pos (by simp [UInt8.lt_iff_toNat_lt]; omega)]
  simp [h1, h2, h3]

/-- Decoding goes on after a character with the position moved past its bytes. -/
theorem decodeFrom_of_lead {b : UInt8} {bs rest : Bytes} {c : Char} {hr} (pos n : Nat)
    (h : lead (b :: bs) = .char c rest hr) (hn : (b :: bs).length = rest.length + n) :
    decodeFrom (b :: bs) pos = (decodeFrom rest (pos + n)).map (c :: ·) := by
  rw [decodeFrom, h]
  show Except.map _ (decodeFrom rest (pos + ((b :: bs).length - rest.length))) = _
  rw [hn, Nat.add_sub_cancel_left]

/-! ## Encoding then decoding -/

/-- The encoding of a character is read back as that character. -/
theorem decodeFrom_encodeChar (c : Char) (rest : Bytes) (pos : Nat) :
    decodeFrom (String.utf8EncodeChar c ++ rest) pos =
      (decodeFrom rest (pos + (String.utf8EncodeChar c).length)).map (c :: ·) := by
  have hv := c.valid
  simp only [UInt32.isValidChar, Nat.isValidChar, Char.toNat_val] at hv
  have hc : Char.ofNat c.toNat = c := Char.ofNat_toNat c
  -- one case per length of the encoding, as `String.utf8EncodeChar` splits
  by_cases h1 : c.toNat ≤ 0x7f
  · have hb := toNat_uint8_ofNat (show c.toNat < 256 by omega)
    have e : String.utf8EncodeChar c = [UInt8.ofNat c.toNat] := by
      simp [String.utf8EncodeChar, h1]
    rw [e, List.singleton_append,
      decodeFrom_of_lead pos 1 (lead_one rest (by omega)) (by simp), hb, hc]
    simp
  by_cases h2 : c.toNat ≤ 0x7ff
  · have e : String.utf8EncodeChar c =
        [UInt8.ofNat (c.toNat / 64 % 32 + 0xc0), UInt8.ofNat (c.toNat % 64 + 0x80)] := by
      simp [String.utf8EncodeChar, h1, h2]
    have hb0 := toNat_uint8_ofNat (show c.toNat / 64 % 32 + 0xc0 < 256 by omega)
    have hb1 := toNat_uint8_ofNat (show c.toNat % 64 + 0x80 < 256 by omega)
    rw [e, List.cons_append, List.singleton_append]
    rw [decodeFrom_of_lead pos 2 (lead_two rest (by omega) (by omega)
      (by rw [isContinuation_iff, hb1]; omega)) (by simp)]
    simp only [hb0, payload, hb1]
    rw [show (c.toNat / 64 % 32 + 0xc0) % 32 * 64 + (c.toNat % 64 + 0x80) % 64 = c.toNat by omega,
      hc]
    simp
  by_cases h3 : c.toNat ≤ 0xffff
  · have e : String.utf8EncodeChar c =
        [UInt8.ofNat (c.toNat / 4096 % 16 + 0xe0), UInt8.ofNat (c.toNat / 64 % 64 + 0x80),
          UInt8.ofNat (c.toNat % 64 + 0x80)] := by
      simp [String.utf8EncodeChar, h1, h2, h3]
    have hb0 := toNat_uint8_ofNat (show c.toNat / 4096 % 16 + 0xe0 < 256 by omega)
    have hb1 := toNat_uint8_ofNat (show c.toNat / 64 % 64 + 0x80 < 256 by omega)
    have hb2 := toNat_uint8_ofNat (show c.toNat % 64 + 0x80 < 256 by omega)
    rw [e, List.cons_append, List.cons_append, List.singleton_append]
    rw [decodeFrom_of_lead pos 3 (lead_three rest (by omega) (by omega)
      (by rw [secondFits_iff, hb0, hb1]; omega) (by rw [isContinuation_iff, hb2]; omega))
      (by simp)]
    simp only [hb0, payload, hb1, hb2]
    rw [show (c.toNat / 4096 % 16 + 0xe0) % 16 * 4096 + (c.toNat / 64 % 64 + 0x80) % 64 * 64
      + (c.toNat % 64 + 0x80) % 64 = c.toNat by omega, hc]
    simp
  · have e : String.utf8EncodeChar c =
        [UInt8.ofNat (c.toNat / 262144 % 8 + 0xf0), UInt8.ofNat (c.toNat / 4096 % 64 + 0x80),
          UInt8.ofNat (c.toNat / 64 % 64 + 0x80), UInt8.ofNat (c.toNat % 64 + 0x80)] := by
      simp [String.utf8EncodeChar, h1, h2, h3]
    have hb0 := toNat_uint8_ofNat (show c.toNat / 262144 % 8 + 0xf0 < 256 by omega)
    have hb1 := toNat_uint8_ofNat (show c.toNat / 4096 % 64 + 0x80 < 256 by omega)
    have hb2 := toNat_uint8_ofNat (show c.toNat / 64 % 64 + 0x80 < 256 by omega)
    have hb3 := toNat_uint8_ofNat (show c.toNat % 64 + 0x80 < 256 by omega)
    rw [e, List.cons_append, List.cons_append, List.cons_append, List.singleton_append]
    rw [decodeFrom_of_lead pos 4 (lead_four rest (by omega) (by omega)
      (by rw [secondFits_iff, hb0, hb1]; omega) (by rw [isContinuation_iff, hb2]; omega)
      (by rw [isContinuation_iff, hb3]; omega)) (by simp)]
    simp only [hb0, payload, hb1, hb2, hb3]
    rw [show (c.toNat / 262144 % 8 + 0xf0) % 8 * 262144 + (c.toNat / 4096 % 64 + 0x80) % 64 * 4096
      + (c.toNat / 64 % 64 + 0x80) % 64 * 64 + (c.toNat % 64 + 0x80) % 64 = c.toNat by omega, hc]
    simp

/-- The encodings of a list of characters are read back as that list. -/
theorem decodeFrom_flatMap (cs : List Char) (pos : Nat) :
    decodeFrom (cs.flatMap String.utf8EncodeChar) pos = .ok cs := by
  induction cs generalizing pos with
  | nil => simp [decodeFrom]
  | cons c cs ih =>
    rw [List.flatMap_cons, decodeFrom_encodeChar, ih]
    rfl

/-- The encoding of a text decodes to the text. -/
theorem decode_ofString (s : String) : decode? (Bytes.ofString s) = .ok s := by
  rw [decode?, Bytes.ofString_eq_flatMap, decodeFrom_flatMap]
  simp [Except.map, String.ofList_toList]

/-! ## Decoding then encoding -/

/-- An ASCII character encodes to its byte. -/
theorem encodeChar_ofNat_one {b0 : UInt8} (h0 : b0.toNat < 0x80) :
    String.utf8EncodeChar (Char.ofNat b0.toNat) = [b0] := by
  have hn := toNat_ofNat_of_valid (show b0.toNat.isValidChar from Or.inl (by omega))
  simp only [String.utf8EncodeChar, Char.toNat_val, hn]
  rw [if_pos (by omega)]
  exact congrArg (· :: []) (uint8_ofNat_eq (by omega))

/-- The character read from two bytes encodes to those two bytes. -/
theorem encodeChar_ofNat_two {b0 b1 : UInt8} (h0 : 0xC2 ≤ b0.toNat) (h0' : b0.toNat < 0xE0)
    (h1 : 0x80 ≤ b1.toNat ∧ b1.toNat ≤ 0xBF) :
    String.utf8EncodeChar (Char.ofNat ((b0.toNat % 32) * 64 + payload b1)) = [b0, b1] := by
  generalize hv : (b0.toNat % 32) * 64 + payload b1 = v
  simp only [payload] at hv
  have hn := toNat_ofNat_of_valid (show v.isValidChar from Or.inl (by omega))
  simp only [String.utf8EncodeChar, Char.toNat_val, hn]
  rw [if_neg (by omega), if_pos (by omega)]
  simp only [List.cons.injEq, and_true]
  exact ⟨uint8_ofNat_eq (by omega), uint8_ofNat_eq (by omega)⟩

/-- The character read from three bytes encodes to those three bytes: the narrowed second
byte rules out overlong forms after `E0` and surrogates after `ED`. -/
theorem encodeChar_ofNat_three {b0 b1 b2 : UInt8} (h0 : 0xE0 ≤ b0.toNat) (h0' : b0.toNat < 0xF0)
    (h1 : secondFits b0 b1) (h2 : 0x80 ≤ b2.toNat ∧ b2.toNat ≤ 0xBF) :
    String.utf8EncodeChar (Char.ofNat ((b0.toNat % 16) * 4096 + payload b1 * 64 + payload b2)) =
      [b0, b1, b2] := by
  rw [secondFits_iff] at h1
  generalize hv : (b0.toNat % 16) * 4096 + payload b1 * 64 + payload b2 = v
  simp only [payload] at hv
  have hn := toNat_ofNat_of_valid (show v.isValidChar by omega)
  simp only [String.utf8EncodeChar, Char.toNat_val, hn]
  rw [if_neg (by omega), if_neg (by omega), if_pos (by omega)]
  simp only [List.cons.injEq, and_true]
  exact ⟨uint8_ofNat_eq (by omega), uint8_ofNat_eq (by omega), uint8_ofNat_eq (by omega)⟩

/-- The character read from four bytes encodes to those four bytes: the narrowed second byte
rules out overlong forms after `F0` and values above `10FFFF` after `F4`. -/
theorem encodeChar_ofNat_four {b0 b1 b2 b3 : UInt8} (h0 : 0xF0 ≤ b0.toNat)
    (h0' : b0.toNat < 0xF5) (h1 : secondFits b0 b1) (h2 : 0x80 ≤ b2.toNat ∧ b2.toNat ≤ 0xBF)
    (h3 : 0x80 ≤ b3.toNat ∧ b3.toNat ≤ 0xBF) :
    String.utf8EncodeChar (Char.ofNat ((b0.toNat % 8) * 262144 + payload b1 * 4096
      + payload b2 * 64 + payload b3)) = [b0, b1, b2, b3] := by
  rw [secondFits_iff] at h1
  generalize hv : (b0.toNat % 8) * 262144 + payload b1 * 4096 + payload b2 * 64 + payload b3 = v
  simp only [payload] at hv
  have hn := toNat_ofNat_of_valid (show v.isValidChar by omega)
  simp only [String.utf8EncodeChar, Char.toNat_val, hn]
  rw [if_neg (by omega), if_neg (by omega), if_neg (by omega)]
  simp only [List.cons.injEq, and_true]
  exact ⟨uint8_ofNat_eq (by omega), uint8_ofNat_eq (by omega), uint8_ofNat_eq (by omega),
    uint8_ofNat_eq (by omega)⟩

/-- A character the decoder reads is the encoding of that character, followed by the rest. -/
theorem eq_encodeChar_of_lead {bs rest : Bytes} {c : Char} {hr}
    (h : lead bs = .char c rest hr) : bs = String.utf8EncodeChar c ++ rest := by
  fun_cases lead bs
  -- every branch but the four that read a character contradicts `h`
  all_goals simp only [lead, *, ↓reduceIte, Lead.char.injEq, reduceCtorEq] at h
  case case2 b0 _ h0 =>
    obtain ⟨rfl, rfl⟩ := h
    rw [encodeChar_ofNat_one (UInt8.lt_iff_toNat_lt.1 h0), List.singleton_append]
  case case5 b0 _ h1 h2 b1 _ hb1 =>
    obtain ⟨rfl, rfl⟩ := h
    simp only [UInt8.lt_iff_toNat_lt, Nat.not_lt] at h1 h2
    rw [encodeChar_ofNat_two (by simpa using h1) (by simpa using h2)
      ((isContinuation_iff b1).1 hb1)]
    rfl
  case case10 b0 _ _ h2 h3 b1 hb1 b2 _ hb2 =>
    obtain ⟨rfl, rfl⟩ := h
    simp only [UInt8.lt_iff_toNat_lt, Nat.not_lt, Bool.not_eq_true', Bool.not_eq_false] at h2 h3 hb1
    rw [encodeChar_ofNat_three (by simpa using h2) (by simpa using h3) hb1
      ((isContinuation_iff b2).1 hb2)]
    rfl
  case case17 b0 _ _ _ h3 h4 b1 hb1 b2 hb2 b3 _ hb3 =>
    obtain ⟨rfl, rfl⟩ := h
    simp only [UInt8.lt_iff_toNat_lt, Nat.not_lt, Bool.not_eq_true', Bool.not_eq_false] at h3 h4 hb1 hb2
    rw [encodeChar_ofNat_four (by simpa using h3) (by simpa using h4) hb1
      ((isContinuation_iff b2).1 hb2) ((isContinuation_iff b3).1 hb3)]
    rfl

/-- Bytes that decode to a list of characters are the encodings of those characters. -/
theorem eq_flatMap_of_decodeFrom {bs : Bytes} {pos : Nat} {cs : List Char}
    (h : decodeFrom bs pos = .ok cs) : bs = cs.flatMap String.utf8EncodeChar := by
  fun_induction decodeFrom bs pos generalizing cs with
  | case1 => cases h; rfl
  | case2 pos b bs c rest hr hlead ih =>
    cases hd : decodeFrom rest (pos + ((b :: bs).length - rest.length)) with
    | error e => rw [hd] at h; cases h
    | ok tail =>
      rw [hd] at h
      obtain rfl : c :: tail = cs := by simpa [Except.map] using h
      rw [eq_encodeChar_of_lead hlead, ih hd, List.flatMap_cons]
  | case3 => cases h
  | case4 => cases h

/-- A byte string that decodes to a text is the encoding of that text. -/
theorem eq_ofString_of_decode {bs : Bytes} {s : String} (h : decode? bs = .ok s) :
    bs = Bytes.ofString s := by
  rw [decode?] at h
  cases hd : decodeFrom bs 0 with
  | error e => rw [hd] at h; cases h
  | ok cs =>
    rw [hd] at h
    obtain rfl : String.ofList cs = s := by simpa [Except.map] using h
    rw [eq_flatMap_of_decodeFrom hd, Bytes.ofString_eq_flatMap, String.toList_ofList]

end Utf8

end ArchiveStore
