import ArchiveStore.Decimal.Notation
import ArchiveStore.Text.Quoted
/-!
# Documents for reading

The layout the inspection tool prints a document in for a person: one item a line, each level
indented by four spaces, every item followed by a comma. A document is its fields between
braces as `"key": value`; a value is its kind's name with its contents in parentheses, except
null; a list or byte string is its items between brackets; an empty document or list is `{}`
or `[]`. Texts are quoted (`Text.quoted`), floats are written in `Decimal.debugNotation`.
-/

namespace ArchiveStore

namespace Value

/-- Lines indented by four spaces. -/
def indent (lines : List String) : List String := lines.map ("    " ++ ·)

/-- The lines of an item followed by a comma. -/
def withComma (lines : List String) : List String :=
  match lines.reverse with
  | [] => []
  | last :: before => ((last ++ ",") :: before).reverse

/-- A block of items between an opening and a closing line, or the two run together if there
are none. -/
def block (opening closing : String) (items : List (List String)) : List String :=
  if items.isEmpty then [opening ++ closing]
  else opening :: indent (items.flatMap withComma) ++ [closing]

/-- The lines of a kind's name with its contents in parentheses. -/
def wrapped (name : String) (inner : List String) : List String :=
  (name ++ "(") :: indent (withComma inner) ++ [")"]

/-- The lines of a field: its quoted key in front of its value's first line. -/
def fieldLines (key : String) (value : List String) : List String :=
  match value with
  | [] => [Text.quoted key ++ ": "]
  | first :: rest => (Text.quoted key ++ ": " ++ first) :: rest

mutual
/-- The lines of a value. -/
def debugLines : Value → List String
  | .null => ["Null"]
  | .bool b => wrapped "Bool" [toString b]
  | .int n => wrapped "Int" [toString n.toInt]
  | .float x => wrapped "Float" [Decimal.debugNotation.render x]
  | .text s => wrapped "String" [Text.quoted s]
  | .bytes b => wrapped "Bytes" (block "[" "]" (b.map fun x => [toString x.toNat]))
  | .list items => wrapped "List" (block "[" "]" (debugLinesOfList items))
  | .document fields => wrapped "Document" (block "\x7b" "\x7d" (debugLinesOfFields fields))

/-- The lines of each value of a list. -/
def debugLinesOfList : List Value → List (List String)
  | [] => []
  | v :: vs => debugLines v :: debugLinesOfList vs

/-- The lines of each field of a document. -/
def debugLinesOfFields : List (String × Value) → List (List String)
  | [] => []
  | (k, v) :: fs => fieldLines k (debugLines v) :: debugLinesOfFields fs
end

end Value

/-- A document laid out for reading, ending with a line break. -/
def Document.debugText (d : Document) : String :=
  String.intercalate "\n" (Value.block "\x7b" "\x7d" (Value.debugLinesOfFields d)) ++ "\n"

end ArchiveStore
