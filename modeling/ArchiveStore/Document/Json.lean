import ArchiveStore.Decimal.Notation
import ArchiveStore.Text.Base64
/-!
# Documents as JSON

A document written as compact JSON text: fields in key order, no spaces. Null, booleans and
integers are JSON's own; a float is a number in `Decimal.jsonNotation`, or `null` when it is
not finite; a text is a JSON string; a byte string is the JSON string of its base64 text; a
list is an array and a document an object.

A JSON string escapes the quote, the backslash and the control characters below U+0020:
`\b \f \n \r \t` by name, the others as `\u00XX` in lowercase hexadecimal. All other
characters stand as they are.
-/

namespace ArchiveStore

namespace Json

/-- Four lowercase hexadecimal digits of a number below 65536. -/
def hex4 (n : Nat) : List Char :=
  [Bytes.hexDigit (n / 4096 % 16), Bytes.hexDigit (n / 256 % 16), Bytes.hexDigit (n / 16 % 16),
    Bytes.hexDigit (n % 16)]

/-- How a character is written inside a JSON string. -/
def escapeChar (c : Char) : List Char :=
  if c = '"' then ['\\', '"']
  else if c = '\\' then ['\\', '\\']
  else if c = '\n' then ['\\', 'n']
  else if c = '\r' then ['\\', 'r']
  else if c = '\t' then ['\\', 't']
  else if c = '\x08' then ['\\', 'b']
  else if c = '\x0c' then ['\\', 'f']
  else if c.toNat < 32 then ['\\', 'u'] ++ hex4 c.toNat
  else [c]

/-- A JSON string. -/
def quote (s : String) : String := String.ofList ('"' :: s.toList.flatMap escapeChar ++ ['"'])

/-- A JSON object of already written values, in the order given. -/
def object (fields : List (String × String)) : String :=
  "\x7b" ++ ",".intercalate (fields.map fun f => quote f.1 ++ ":" ++ f.2) ++ "\x7d"

/-- A JSON array of already written values. -/
def array (items : List String) : String := "[" ++ ",".intercalate items ++ "]"

end Json

namespace Value

mutual
/-- A value as JSON text. -/
def jsonText : Value → String
  | .null => "null"
  | .bool b => toString b
  | .int n => toString n.toInt
  | .float x =>
    if x.isNaN || x.isInfinite then "null" else Decimal.jsonNotation.render x
  | .text s => Json.quote s
  | .bytes b => Json.quote (Text.base64 b)
  | .list items => Json.array (jsonTextOfList items)
  | .document fields => Json.object (jsonTextOfFields fields)

/-- Each value of a list as JSON text. -/
def jsonTextOfList : List Value → List String
  | [] => []
  | v :: vs => jsonText v :: jsonTextOfList vs

/-- Each field of a document with its value as JSON text. -/
def jsonTextOfFields : List (String × Value) → List (String × String)
  | [] => []
  | (k, v) :: fs => (k, jsonText v) :: jsonTextOfFields fs
end

end Value

/-- A document as JSON text. -/
def Document.jsonText (d : Document) : String := Json.object (Value.jsonTextOfFields d)

end ArchiveStore
