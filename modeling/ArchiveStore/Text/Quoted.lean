import ArchiveStore.Text.GraphemeExtend
/-!
# Quoted text

The quoted form of a text, as messages show a caller's key: between double quotes, with
backslash escapes. NUL, tab, carriage return and line feed are written `\0`, `\t`, `\r` and
`\n`; a backslash and a double quote get a backslash in front. Grapheme-extending and
non-printable characters become `\u{hex}` with the code point in lowercase hexadecimal and no
leading zeros. Every other character stands as it is, the single quote included.
-/

namespace ArchiveStore.Text

/-- The `\u{hex}` escape of a character. -/
def unicodeEscape (c : Char) : List Char :=
  ['\\', 'u', '\x7b'] ++ Nat.toDigits 16 c.toNat ++ ['\x7d']

/-- How one character is written inside quotes. -/
def quoteChar (c : Char) : List Char :=
  if c = '\x00' then ['\\', '0']
  else if c = '\t' then ['\\', 't']
  else if c = '\r' then ['\\', 'r']
  else if c = '\n' then ['\\', 'n']
  else if c = '\\' then ['\\', '\\']
  else if c = '"' then ['\\', '"']
  else if isGraphemeExtend c then unicodeEscape c
  else if isPrintable c then [c]
  else unicodeEscape c

/-- A text between double quotes, escaped. -/
def quoted (s : String) : String :=
  String.ofList ('"' :: s.toList.flatMap quoteChar ++ ['"'])

end ArchiveStore.Text
