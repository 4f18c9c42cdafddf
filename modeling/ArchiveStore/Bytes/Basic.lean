/-!
# Byte strings

Everything the store keeps is a byte string: keys, records, payloads and names. A byte string
is a list of octets, ordered lexicographically (core's order on lists), which is the order the
store's table walks its keys in.

* `Bytes.ofNatLE w n` / `Bytes.toNatLE` and `Bytes.ofNatBE w n` / `Bytes.toNatBE`: fixed-width
  integers, least or most significant byte first. `toNatLE_ofNatLE` and `toNatBE_ofNatBE` say
  that reading back gives the number modulo `Nat.pow 256 w`, that is `256 ^ w`.
* `Bytes.ofString`: the UTF-8 encoding of a text.
* `Bytes.hex`: lowercase hexadecimal, two digits a byte.
-/

namespace ArchiveStore

/-- A byte string. -/
abbrev Bytes := List UInt8

namespace Bytes

/-- The `w` bytes of `n`, least significant first; bits above `8 * w` are dropped. -/
def ofNatLE : Nat → Nat → Bytes
  | 0, _ => []
  | w + 1, n => UInt8.ofNat (n % 256) :: ofNatLE w (n / 256)

/-- The number whose bytes, least significant first, are the given ones. -/
def toNatLE : Bytes → Nat
  | [] => 0
  | b :: bs => b.toNat + 256 * toNatLE bs

/-- The `w` bytes of `n`, most significant first. -/
def ofNatBE (w n : Nat) : Bytes := (ofNatLE w n).reverse

/-- The number whose bytes, most significant first, are the given ones. -/
def toNatBE (bs : Bytes) : Nat := toNatLE bs.reverse

/-- The UTF-8 encoding of a text. -/
def ofString (s : String) : Bytes := s.toUTF8.data.toList

/-- The lowercase hexadecimal digit of a number below 16. -/
def hexDigit (n : Nat) : Char :=
  if n < 10 then Char.ofNat (48 + n) else Char.ofNat (87 + n)

/-- Lowercase hexadecimal text, two digits a byte. -/
def hex (bs : Bytes) : String :=
  String.ofList (bs.flatMap fun b => [hexDigit (b.toNat / 16), hexDigit (b.toNat % 16)])

@[simp] theorem length_ofNatLE (w n : Nat) : (ofNatLE w n).length = w := by
  induction w generalizing n with
  | zero => rfl
  | succ w ih => simp [ofNatLE, ih]

@[simp] theorem length_ofNatBE (w n : Nat) : (ofNatBE w n).length = w := by
  simp [ofNatBE]

theorem toNatLE_ofNatLE (w n : Nat) : toNatLE (ofNatLE w n) = n % Nat.pow 256 w := by
  induction w generalizing n with
  | zero => simp [ofNatLE, toNatLE, Nat.mod_one]
  | succ w ih =>
    have hb : (UInt8.ofNat (n % 256)).toNat = n % 256 := by simp
    simp only [ofNatLE, toNatLE, ih, hb, Nat.pow_eq]
    rw [Nat.pow_succ, Nat.mul_comm (256 ^ w) 256, Nat.mod_mul]

theorem toNatBE_ofNatBE (w n : Nat) : toNatBE (ofNatBE w n) = n % Nat.pow 256 w := by
  simp [toNatBE, ofNatBE, toNatLE_ofNatLE]

end Bytes

end ArchiveStore
