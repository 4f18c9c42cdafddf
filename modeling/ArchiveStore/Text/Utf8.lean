import ArchiveStore.Bytes.Basic
/-!
# UTF-8

Reading byte strings as UTF-8 text, strictly and leniently.

A well-formed sequence is one ASCII byte, or a lead byte `C2..F4` followed by the number of
continuation bytes it announces, where the second byte is narrowed so that no overlong form,
surrogate or code point above `10FFFF` gets through (`E0 A0..BF`, `ED 80..9F`, `F0 90..BF`,
`F4 80..8F`). Bytes are examined one at a time:

* `Utf8.decode?` stops at the first ill-formed sequence and reports a `Utf8Error`: how many
  bytes were valid, and how many bytes the bad sequence spans (`none` when the input ends
  inside a sequence that was well-formed so far).
* `Utf8.decodeLossy` replaces each maximal ill-formed part by one U+FFFD.
-/

namespace ArchiveStore

/-- Where and why a byte string stops being UTF-8. -/
structure Utf8Error where
  /-- The length of the longest valid prefix. -/
  validUpTo : Nat
  /-- The length of the ill-formed sequence there, or `none` if the input ends inside a
  sequence. -/
  errorLen : Option Nat
deriving DecidableEq, Repr

/-- The description of a UTF-8 failure. -/
def Utf8Error.message (e : Utf8Error) : String :=
  match e.errorLen with
  | some n => s!"invalid utf-8 sequence of {n} bytes from index {e.validUpTo}"
  | none => s!"incomplete utf-8 byte sequence from index {e.validUpTo}"

namespace Utf8

/-- How a byte string starts: with a well-formed character, with an ill-formed sequence of
`len` bytes, or with a sequence that the end of input cuts short. `rest` is what follows. -/
inductive Lead (bs : Bytes) where
  | char (c : Char) (rest : Bytes) (shorter : rest.length < bs.length)
  | invalid (len : Nat) (rest : Bytes) (shorter : rest.length < bs.length)
  | truncated

/-- A continuation byte, `80..BF`. -/
def isContinuation (b : UInt8) : Bool := 0x80 ≤ b && b ≤ 0xBF

/-- The range the second byte of a sequence must fall in, given its lead byte. -/
def secondRange (b0 : UInt8) : UInt8 × UInt8 :=
  if b0 = 0xE0 then (0xA0, 0xBF)
  else if b0 = 0xED then (0x80, 0x9F)
  else if b0 = 0xF0 then (0x90, 0xBF)
  else if b0 = 0xF4 then (0x80, 0x8F)
  else (0x80, 0xBF)

/-- Whether `b` may follow the lead byte `b0`. -/
def secondFits (b0 b : UInt8) : Bool :=
  (secondRange b0).1 ≤ b && b ≤ (secondRange b0).2

/-- The low six bits of a continuation byte. -/
def payload (b : UInt8) : Nat := b.toNat % 64

/-- The tail of a byte string is shorter than it. -/
theorem tail_shorter (b0 : UInt8) (rest : Bytes) : rest.length < (b0 :: rest).length :=
  Nat.lt_succ_self _

/-- What follows the first two bytes of a byte string is shorter than it. -/
theorem tail_shorter_two (b0 b1 : UInt8) (rest : Bytes) :
    rest.length < (b0 :: b1 :: rest).length :=
  Nat.lt_succ_of_lt (tail_shorter b1 rest)

/-- What follows the first three bytes of a byte string is shorter than it. -/
theorem tail_shorter_three (b0 b1 b2 : UInt8) (rest : Bytes) :
    rest.length < (b0 :: b1 :: b2 :: rest).length :=
  Nat.lt_succ_of_lt (tail_shorter_two b1 b2 rest)

/-- What follows the first four bytes of a byte string is shorter than it. -/
theorem tail_shorter_four (b0 b1 b2 b3 : UInt8) (rest : Bytes) :
    rest.length < (b0 :: b1 :: b2 :: b3 :: rest).length :=
  Nat.lt_succ_of_lt (tail_shorter_three b1 b2 b3 rest)

/-- Reads the first sequence of a byte string. -/
def lead : (bs : Bytes) → Lead bs
  | [] => .truncated
  | b0 :: rest =>
    if b0 < 0x80 then .char (Char.ofNat b0.toNat) rest (tail_shorter b0 rest)
    else if b0 < 0xC2 then .invalid 1 rest (tail_shorter b0 rest)
    else if b0 < 0xE0 then
      match rest with
      | [] => .truncated
      | b1 :: rest =>
        if isContinuation b1 then
          .char (Char.ofNat ((b0.toNat % 32) * 64 + payload b1)) rest
            (tail_shorter_two b0 b1 rest)
        else .invalid 1 (b1 :: rest) (tail_shorter b0 (b1 :: rest))
    else if b0 < 0xF0 then
      match rest with
      | [] => .truncated
      | b1 :: rest =>
        if !secondFits b0 b1 then .invalid 1 (b1 :: rest) (tail_shorter b0 (b1 :: rest))
        else match rest with
          | [] => .truncated
          | b2 :: rest =>
            if isContinuation b2 then
              .char (Char.ofNat ((b0.toNat % 16) * 4096 + payload b1 * 64 + payload b2)) rest
                (tail_shorter_three b0 b1 b2 rest)
            else .invalid 2 (b2 :: rest) (tail_shorter_two b0 b1 (b2 :: rest))
    else if b0 < 0xF5 then
      match rest with
      | [] => .truncated
      | b1 :: rest =>
        if !secondFits b0 b1 then .invalid 1 (b1 :: rest) (tail_shorter b0 (b1 :: rest))
        else match rest with
          | [] => .truncated
          | b2 :: rest =>
            if !isContinuation b2 then
              .invalid 2 (b2 :: rest) (tail_shorter_two b0 b1 (b2 :: rest))
            else match rest with
              | [] => .truncated
              | b3 :: rest =>
                if isContinuation b3 then
                  .char (Char.ofNat ((b0.toNat % 8) * 262144 + payload b1 * 4096
                    + payload b2 * 64 + payload b3)) rest (tail_shorter_four b0 b1 b2 b3 rest)
                else .invalid 3 (b3 :: rest) (tail_shorter_three b0 b1 b2 (b3 :: rest))
    else .invalid 1 rest (tail_shorter b0 rest)

/-- The characters of a byte string read from position `pos` on, or the first failure. -/
def decodeFrom (bs : Bytes) (pos : Nat) : Except Utf8Error (List Char) :=
  match bs with
  | [] => .ok []
  | b :: bs' =>
    match lead (b :: bs') with
    | .char c rest _ =>
      (decodeFrom rest (pos + ((b :: bs').length - rest.length))).map (c :: ·)
    | .invalid len _ _ => .error ⟨pos, some len⟩
    | .truncated => .error ⟨pos, none⟩
termination_by bs.length
decreasing_by all_goals assumption

/-- The text a byte string encodes, or where it stops being UTF-8. -/
def decode? (bs : Bytes) : Except Utf8Error String :=
  (decodeFrom bs 0).map String.ofList

/-- The characters of a byte string, with each ill-formed part replaced by U+FFFD. -/
def lossyChars (bs : Bytes) : List Char :=
  match bs with
  | [] => []
  | b :: bs' =>
    match lead (b :: bs') with
    | .char c rest _ => c :: lossyChars rest
    | .invalid _ rest _ => '�' :: lossyChars rest
    | .truncated => ['�']
termination_by bs.length
decreasing_by all_goals assumption

/-- The text of a byte string, with each ill-formed part replaced by U+FFFD. -/
def decodeLossy (bs : Bytes) : String := String.ofList (lossyChars bs)

end Utf8

end ArchiveStore
