import ArchiveStore.Record.Meta
/-!
# Envelopes

Every stored value is wrapped in an envelope: the byte 0 followed by the payload, or the
byte 1, the length of the packed meta in four bytes (most significant first), the packed meta
and the payload. When the meta's stated length covers more than the meta needs, the surplus
is skipped.

* `Envelope.encode` writes an envelope; it fails only for a meta whose packed form needs more
  than 32 bits of length.
* `Envelope.decode` reads one, failing on an empty record, an unknown flag, a short length,
  a meta that runs past the record, or a meta that is not in the packed layout.
-/

namespace ArchiveStore

/-- A stored value with its optional meta. -/
structure Envelope where
  /-- The meta, if the value carries one. -/
  info : Option Meta
  /-- The value's bytes, or none at all for a chunked value. -/
  payload : Bytes
deriving DecidableEq, Repr

namespace Envelope

/-- The record of an envelope. -/
def encode (e : Envelope) : Except StoreError Bytes :=
  match e.info with
  | none => .ok (0x00 :: e.payload)
  | some m =>
    let packed := m.pack
    if packed.length < Nat.pow 2 32 then
      .ok (0x01 :: Bytes.ofNatBE 4 packed.length ++ packed ++ e.payload)
    else .error (.metaTooLarge packed.length)

/-- The envelope a record holds. -/
def decode (record : Bytes) : Except StoreError Envelope :=
  match record with
  | [] => .error .emptyRecord
  | 0x00 :: rest => .ok ⟨none, rest⟩
  | 0x01 :: rest =>
    if rest.length < 4 then .error (.shortMetaLength rest.length)
    else
      let len := Bytes.toNatBE (rest.take 4)
      let body := rest.drop 4
      if body.length < len then .error (.shortMeta len body.length)
      else
        match Meta.reader.parse (body.take len) with
        | .ok m => .ok ⟨some m, body.drop len⟩
        | .error e => .error (.badMeta e)
  | flag :: _ => .error (.unknownFlag flag)

end Envelope

end ArchiveStore
