import ArchiveStore.Bytes.Basic
/-!
# Document values

A document maps text keys to values, in ascending key order, each key once. A value is null,
a boolean, a signed 64-bit integer, a binary64 float (kept as its bit pattern, so every NaN
payload survives), a text, a byte string, a list of values or a document.

* `Document.insert` adds or replaces a field and keeps the keys ascending.
* `Value.nesting` counts the list and document levels of a value: a scalar has none, a list
  or document one more than its deepest item.
* `Value.sameAs` is the equality callers compare documents with: floats compare as numbers,
  so a NaN equals nothing and the two zeros are equal.
* `DocumentMap` is a document as a program holds it, an ordered map at every level: the list
  of fields carries the proof that its keys, and those of every document inside it, ascend.
-/

namespace ArchiveStore

/-- An IEEE 754 binary64 number, by its bit pattern. -/
structure Binary64 where
  bits : UInt64
deriving DecidableEq, Repr

namespace Binary64

/-- The exponent field. -/
def exponentField (x : Binary64) : Nat := (x.bits.toNat / Nat.pow 2 52) % 2048

/-- The fraction field. -/
def fractionField (x : Binary64) : Nat := x.bits.toNat % Nat.pow 2 52

/-- Whether the sign bit is set. -/
def signBit (x : Binary64) : Bool := x.bits.toNat ≥ Nat.pow 2 63

/-- Not a number: all exponent bits set and a fraction that is not zero. -/
def isNaN (x : Binary64) : Bool := x.exponentField = 2047 && x.fractionField ≠ 0

/-- Positive or negative infinity. -/
def isInfinite (x : Binary64) : Bool := x.exponentField = 2047 && x.fractionField = 0

/-- Positive or negative zero. -/
def isZero (x : Binary64) : Bool := x.exponentField = 0 && x.fractionField = 0

/-- Numeric equality: a NaN equals nothing, the two zeros are equal. -/
def sameAs (x y : Binary64) : Bool :=
  !x.isNaN && !y.isNaN && (x.bits = y.bits || (x.isZero && y.isZero))

end Binary64

/-- A value held in a document. -/
inductive Value where
  | null
  | bool (b : Bool)
  | int (n : Int64)
  | float (x : Binary64)
  | text (s : String)
  | bytes (b : Bytes)
  | list (items : List Value)
  | document (fields : List (String × Value))
deriving Repr

/-- A document: fields in ascending key order, each key once. -/
abbrev Document := List (String × Value)

namespace Document

/-- The document with a field set to a value: added in key order, or replacing the value of
an existing field. -/
def insert (d : Document) (key : String) (v : Value) : Document :=
  match d with
  | [] => [(key, v)]
  | (k, w) :: rest =>
    if key < k then (key, v) :: (k, w) :: rest
    else if key = k then (key, v) :: rest
    else (k, w) :: insert rest key v

/-- The document of a list of fields; a later field replaces an earlier one of the same key. -/
def ofFields (fields : List (String × Value)) : Document :=
  fields.foldl (fun d f => d.insert f.1 f.2) []

/-- The values of a document, in key order. -/
def values (d : Document) : List Value := d.map Prod.snd

end Document

namespace Value

mutual
/-- The number of list and document levels in a value. -/
def nesting : Value → Nat
  | .list items => nestingOfList items + 1
  | .document fields => nestingOfFields fields + 1
  | _ => 0

/-- The greatest nesting among a list of values. -/
def nestingOfList : List Value → Nat
  | [] => 0
  | v :: vs => max (nesting v) (nestingOfList vs)

/-- The greatest nesting among the values of a document. -/
def nestingOfFields : List (String × Value) → Nat
  | [] => 0
  | (_, v) :: fs => max (nesting v) (nestingOfFields fs)
end

/-- Whether the keys of a document ascend strictly. -/
def keysAscend (fields : List (String × Value)) : Bool :=
  decide ((fields.map (·.1)).Pairwise (· < ·))

mutual
/-- Whether every document in a value has its keys ascending. -/
def ordered : Value → Bool
  | .list items => orderedList items
  | .document fields => keysAscend fields && orderedFields fields
  | _ => true

/-- Whether every value of a list is ordered. -/
def orderedList : List Value → Bool
  | [] => true
  | v :: vs => v.ordered && orderedList vs

/-- Whether every value of a document is ordered. -/
def orderedFields : List (String × Value) → Bool
  | [] => true
  | (_, v) :: fs => v.ordered && orderedFields fs
end

/-- Every value has a positive size. -/
theorem sizeOf_pos (v : Value) : 0 < sizeOf v := by
  cases v <;>
    simp only [null.sizeOf_spec, bool.sizeOf_spec, int.sizeOf_spec, float.sizeOf_spec,
      text.sizeOf_spec, bytes.sizeOf_spec, list.sizeOf_spec, document.sizeOf_spec] <;>
    omega

mutual
/-- Equality as callers compare values: floats by number, everything else exactly. -/
def sameAs : Value → Value → Bool
  | .null, .null => true
  | .bool a, .bool b => a == b
  | .int a, .int b => a == b
  | .float a, .float b => a.sameAs b
  | .text a, .text b => a == b
  | .bytes a, .bytes b => a == b
  | .list as, .list bs => sameAsList as bs
  | .document as, .document bs => sameAsFields as bs
  | _, _ => false

/-- Item-wise equality of two lists of values. -/
def sameAsList : List Value → List Value → Bool
  | [], [] => true
  | a :: as, b :: bs => sameAs a b && sameAsList as bs
  | _, _ => false

/-- Field-wise equality of two documents. -/
def sameAsFields : List (String × Value) → List (String × Value) → Bool
  | [], [] => true
  | (k, a) :: as, (l, b) :: bs => k == l && sameAs a b && sameAsFields as bs
  | _, _ => false
end

/-- The value of an optional one, null for none. -/
def ofOption {α : Type} (f : α → Value) : Option α → Value
  | some a => f a
  | none => .null

/-- The text a value holds, if it is a text. -/
def asText? : Value → Option String
  | .text s => some s
  | _ => none

/-- The integer a value holds, if it is an integer. -/
def asInt? : Value → Option Int64
  | .int n => some n
  | _ => none

/-- The bytes a value holds, if it is a byte string. -/
def asBytes? : Value → Option Bytes
  | .bytes b => some b
  | _ => none

/-- The document a value holds, if it is a document. -/
def asDocument? : Value → Option Document
  | .document d => some d
  | _ => none

/-- The items a value holds, if it is a list. -/
def asList? : Value → Option (List Value)
  | .list items => some items
  | _ => none

end Value

namespace Document

/-- Whether a document is an ordered map at every level: its keys ascend strictly, and so do
the keys of every document inside it. -/
def ascending (d : Document) : Bool := Value.keysAscend d && Value.orderedFields d

end Document

/-- A document as a program holds it: a map from keys to values, ordered at every level, as a
list of fields whose keys ascend strictly and whose values hold only such documents. -/
structure DocumentMap where
  /-- The fields, in ascending key order. -/
  fields : Document
  /-- The keys ascend, in the document and in every document inside it. -/
  ascending : fields.ascending = true

end ArchiveStore
