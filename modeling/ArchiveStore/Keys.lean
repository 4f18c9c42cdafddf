import ArchiveStore.Error
/-!
# Key layout

All records of all namespaces share one ordered table, and only the shape of their keys keeps
them apart:

```
namespace list     01 "namespaces"
namespace          00 len name
  bucket list      <namespace> 02 "buckets"
  bucket           <namespace> kind len name        kind: 00 builtin, 01 user
    entry          <bucket> 00 key
    counter        <bucket> 01 "id"
```

Names are one to 255 bytes and carry their length in front, so no namespace's prefix is a
prefix of another's, and the same holds for buckets.

* `Keys.validateName` is the check every new name passes.
* `Keys.sequence` / `Keys.readSequence` write and read generated keys: eight bytes, big-endian,
  so that byte order is number order.
* `Keys.successor p` is the least key above every extension of `p`, if there is one; the
  extensions of `p` are exactly the keys in `[p, successor p)` (`Keys.withinPrefix`).
-/

namespace ArchiveStore

/-- Builtin buckets come with every namespace; user buckets are made by name. -/
inductive BucketKind where
  | builtin
  | user
deriving DecidableEq, Repr

/-- The byte that tells the two kinds apart in a bucket's prefix. -/
def BucketKind.tag : BucketKind → UInt8
  | .builtin => 0
  | .user => 1

namespace Keys

/-- The longest name, in bytes. -/
def maxNameLength : Nat := 255

/-- The name of the builtin bucket of documents. -/
def documentBucket : Bytes := Bytes.ofString "d"

/-- The name of the builtin bucket of binary objects. -/
def objectBucket : Bytes := Bytes.ofString "o"

/-- The name of the builtin bucket that holds the chunks of a namespace's large values. -/
def chunkBucket : Bytes := Bytes.ofString "t"

/-- Refuses an empty name and a name longer than 255 bytes; `what` says what is named. -/
def validateName (what : String) (name : Bytes) : Except StoreError Unit :=
  if name.isEmpty then .error (.emptyName what)
  else if name.length > maxNameLength then .error (.longName what name.length)
  else .ok ()

/-- A name with its length in front, in one byte. -/
def lengthPrefixed (name : Bytes) : Bytes := UInt8.ofNat name.length :: name

/-- The key of the list of namespace names. -/
def namespaceList : Bytes := 0x01 :: Bytes.ofString "namespaces"

/-- The prefix of every key of a namespace. -/
def namespacePrefix (name : Bytes) : Bytes := 0x00 :: lengthPrefixed name

/-- The key of a namespace's list of user bucket names. -/
def bucketList (space : Bytes) : Bytes := space ++ 0x02 :: Bytes.ofString "buckets"

/-- The prefix of every key of a bucket. -/
def bucketPrefix (space : Bytes) (kind : BucketKind) (name : Bytes) : Bytes :=
  space ++ kind.tag :: lengthPrefixed name

/-- The prefix of a bucket's entries. -/
def entryPrefix (bucket : Bytes) : Bytes := bucket ++ [0x00]

/-- The key of an entry. -/
def entryKey (entries : Bytes) (key : Bytes) : Bytes := entries ++ key

/-- The key of a bucket's sequence counter. -/
def sequenceKey (bucket : Bytes) : Bytes := bucket ++ 0x01 :: Bytes.ofString "id"

/-- A sequence number as eight bytes, most significant first. -/
def sequence (n : UInt64) : Bytes := Bytes.ofNatBE 8 n.toNat

/-- The sequence number of eight bytes. -/
def readSequence (bs : Bytes) : Except StoreError UInt64 :=
  if bs.length = 8 then .ok (UInt64.ofNat (Bytes.toNatBE bs)) else .error (.badSequence bs.length)

/-- The successor of a reversed prefix: drop trailing `FF` bytes, then raise the last byte. -/
def successorRev : Bytes → Option Bytes
  | [] => none
  | b :: rest => if b < 0xFF then some ((b + 1) :: rest) else successorRev rest

/-- The least key above every key that starts with `p`; `none` when `p` is all `FF`. -/
def successor (p : Bytes) : Option Bytes := (successorRev p.reverse).map List.reverse

/-- Whether a key lies in `[lo, hi)`, with no upper end when `hi` is `none`. -/
def withinBounds (lo : Bytes) (hi : Option Bytes) (k : Bytes) : Bool :=
  decide (lo ≤ k) && match hi with
    | none => true
    | some hi => decide (k < hi)

/-- Whether a key lies in the range a prefix scan visits. -/
def withinPrefix (p k : Bytes) : Bool := withinBounds p (successor p) k

end Keys

end ArchiveStore
