import ArchiveStore.Bytes.Basic
/-!
# Base64

The standard base64 encoding: each three bytes become four characters of the alphabet
`A–Z a–z 0–9 + /`; a last group of one or two bytes is padded with `=` to four characters.
-/

namespace ArchiveStore.Text

/-- The character of a six-bit number. -/
def base64Char (n : Nat) : Char :=
  if n < 26 then Char.ofNat (65 + n)
  else if n < 52 then Char.ofNat (71 + n)
  else if n < 62 then Char.ofNat (n - 4)
  else if n = 62 then '+'
  else '/'

/-- The base64 characters of a byte string. -/
def base64Chars : Bytes → List Char
  | [] => []
  | [a] =>
    let n := a.toNat * 65536
    [base64Char (n / 262144), base64Char (n / 4096 % 64), '=', '=']
  | [a, b] =>
    let n := a.toNat * 65536 + b.toNat * 256
    [base64Char (n / 262144), base64Char (n / 4096 % 64), base64Char (n / 64 % 64), '=']
  | a :: b :: c :: rest =>
    let n := a.toNat * 65536 + b.toNat * 256 + c.toNat
    [base64Char (n / 262144), base64Char (n / 4096 % 64), base64Char (n / 64 % 64),
      base64Char (n % 64)] ++ base64Chars rest

/-- The base64 text of a byte string. -/
def base64 (bs : Bytes) : String := String.ofList (base64Chars bs)

end ArchiveStore.Text
