/-!
# The log on standard error

The store logs what it does as events, each one line of text on standard error:

    <timestamp> <LEVEL> <spans> <target>: <message> <name>=<value> ...

The level is right-aligned in five columns. Each span the event happened in is written as
`name{fields}:`. In the message, characters that would steer a terminal are written as
escapes (`escapeLogMessage`). Field values are written as they are, so a value holding a line
feed continues on lines of its own.

A reader of standard error is shown less than this (`shownLines`):

1. ANSI escape sequences are removed (`stripAnsi`);
2. a line that starts like a log line, with an RFC 3339 timestamp, blanks and a level, is kept
   only at level ERROR, and then without the timestamp and the blanks after it;
3. every other line is kept whole, even one that continues a log line.
-/

namespace ArchiveStore.Console

/-- How urgent a log event is. -/
inductive Level where
  | error
  | warn
  | info
  | debug
  | trace
deriving DecidableEq, Repr

/-- The word a log line shows for a level. -/
def Level.label : Level → String
  | .error => "ERROR"
  | .warn => "WARN"
  | .info => "INFO"
  | .debug => "DEBUG"
  | .trace => "TRACE"

/-- The words of every level. -/
def levelLabels : List String := ["ERROR", "WARN", "INFO", "DEBUG", "TRACE"]

/-- A span an event happened in: a name and the fields it was opened with. -/
structure LogSpan where
  name : String
  fields : List (String × String) := []

/-- One event of the log. -/
structure LogEvent where
  level : Level
  /-- The spans around the event, outermost first. -/
  spans : List LogSpan := []
  /-- The module the event comes from. -/
  target : String
  message : String
  fields : List (String × String) := []

/-- The time every log line shows; readers cut it. -/
def logStamp : String := "1970-01-01T00:00:00.000000Z"

/-- The lowercase hexadecimal digits of a number. -/
def hexDigits (n : Nat) : String :=
  String.ofList (Nat.toDigits 16 n)

/-- A character of a log message as written: the terminal controls escape, bell, backspace,
form feed and delete as two hexadecimal digits, the C1 controls as a code point. -/
def escapeLogChar (c : Char) : String :=
  let n := c.toNat
  if n == 0x1B || n == 0x07 || n == 0x08 || n == 0x0C || n == 0x7F then
    "\\x" ++ (if n < 16 then "0" else "") ++ hexDigits n
  else if 0x80 ≤ n && n ≤ 0x9F then "\\u\x7b" ++ hexDigits n ++ "\x7d"
  else c.toString

/-- A log message as written. -/
def escapeLogMessage (s : String) : String :=
  String.join (s.toList.map escapeLogChar)

/-- Fields as written after a message: each one a blank, its name, `=` and its value. -/
def fieldsText (fields : List (String × String)) : String :=
  String.join (fields.map fun (k, v) => " " ++ k ++ "=" ++ v)

/-- A span as written before an event's target. -/
def LogSpan.text (sp : LogSpan) : String :=
  let inner := " ".intercalate (sp.fields.map fun (k, v) => k ++ "=" ++ v)
  sp.name ++ (if sp.fields.isEmpty then "" else "\x7b" ++ inner ++ "\x7d") ++ ":"

/-- An event as written on standard error, ending with a line feed. -/
def LogEvent.text (e : LogEvent) : String :=
  let label := e.level.label
  let level := (if label.length < 5 then " " else "") ++ label
  let spans := if e.spans.isEmpty then "" else String.join (e.spans.map LogSpan.text) ++ " "
  logStamp ++ " " ++ level ++ " " ++ spans ++ e.target ++ ": " ++ escapeLogMessage e.message ++
    fieldsText e.fields ++ "\n"

/-- Where the removal of ANSI escape sequences stands. -/
inductive AnsiState where
  /-- In plain text. -/
  | text
  /-- Just after an escape character. -/
  | escape
  /-- Inside a control sequence, `ESC [`; `seen` holds what followed, last first, and
  `late` says whether intermediate characters have begun. -/
  | control (seen : List Char) (late : Bool)

/-- The escape character. -/
def escChar : Char := Char.ofNat 0x1B

/-- Removes ANSI escape sequences from the characters that follow a state. A sequence is an
escape and one character from `@` to `_` other than `[`, or `ESC [`, parameter characters
(`0` to `?`), intermediate characters (blank to `/`) and one final character (`@` to `~`).
An escape that starts no sequence is kept. -/
def stripAnsiFrom : AnsiState → List Char → List Char
  | .text, [] => []
  | .escape, [] => [escChar]
  | .control seen _, [] => escChar :: '[' :: seen.reverse
  | .text, c :: rest =>
    if c == escChar then stripAnsiFrom .escape rest else c :: stripAnsiFrom .text rest
  | .escape, c :: rest =>
    if c == '[' then stripAnsiFrom (.control [] false) rest
    else if 0x40 ≤ c.toNat && c.toNat ≤ 0x5F then stripAnsiFrom .text rest
    else if c == escChar then escChar :: stripAnsiFrom .escape rest
    else escChar :: c :: stripAnsiFrom .text rest
  | .control seen late, c :: rest =>
    let n := c.toNat
    if !late && 0x30 ≤ n && n ≤ 0x3F then stripAnsiFrom (.control (c :: seen) false) rest
    else if 0x20 ≤ n && n ≤ 0x2F then stripAnsiFrom (.control (c :: seen) true) rest
    else if 0x40 ≤ n && n ≤ 0x7E then stripAnsiFrom .text rest
    else
      escChar :: '[' :: seen.reverse ++
        (if c == escChar then stripAnsiFrom .escape rest else c :: stripAnsiFrom .text rest)

/-- A text without its ANSI escape sequences. -/
def stripAnsi (s : String) : String := String.ofList (stripAnsiFrom .text s.toList)

/-- The lines of a text: it is split at line feeds, a carriage return before a line feed is
dropped, and a last line feed only ends the last line. -/
def textLines (s : String) : List String :=
  let parts := s.splitOn "\n"
  let whole := parts.dropLast.map fun l =>
    if l.endsWith "\r" then String.ofList l.toList.dropLast else l
  match parts.getLast? with
  | some last => if last.isEmpty then whole else whole ++ [last]
  | none => whole

/-- The characters after `n` decimal digits, if the text starts with them. -/
def afterDigits : Nat → List Char → Option (List Char)
  | 0, cs => some cs
  | n + 1, c :: cs => if c.isDigit then afterDigits n cs else none
  | _ + 1, [] => none

/-- The characters after a character, if the text starts with it. -/
def afterChar (c : Char) : List Char → Option (List Char)
  | d :: cs => if d == c then some cs else none
  | [] => none

/-- The characters after the fraction of a second, which may be absent. -/
def afterFraction : List Char → List Char
  | '.' :: cs =>
    let digits := cs.takeWhile Char.isDigit
    if digits.isEmpty then '.' :: cs else cs.drop digits.length
  | cs => cs

/-- The characters after an RFC 3339 timestamp, if the text starts with one: a date, `T`, a
time with an optional fraction, and `Z` or an offset. -/
def afterStamp (cs : List Char) : Option (List Char) := do
  let cs ← afterDigits 4 cs
  let cs ← afterChar '-' cs
  let cs ← afterDigits 2 cs
  let cs ← afterChar '-' cs
  let cs ← afterDigits 2 cs
  let cs ← afterChar 'T' cs
  let cs ← afterDigits 2 cs
  let cs ← afterChar ':' cs
  let cs ← afterDigits 2 cs
  let cs ← afterChar ':' cs
  let cs ← afterDigits 2 cs
  match afterFraction cs with
  | 'Z' :: cs => some cs
  | c :: cs =>
    if c == '+' || c == '-' then do
      let cs ← afterDigits 2 cs
      let cs ← afterChar ':' cs
      afterDigits 2 cs
    else none
  | [] => none

/-- Whether a character is a blank between a timestamp and a level. -/
def isBlank (c : Char) : Bool := c == ' ' || c == '\t'

/-- The level a log line names and the line from its level on, if the line starts like a
log line. -/
def logLevel? (line : String) : Option (String × String) := do
  let cs ← afterStamp line.toList
  let blanks := cs.takeWhile isBlank
  let rest := cs.drop blanks.length
  let word := rest.takeWhile Char.isAlpha
  let after := rest.drop word.length
  let label := String.ofList word
  if !blanks.isEmpty && levelLabels.contains label && (after.isEmpty || after.head? == some ' ')
  then some (label, String.ofList rest)
  else none

/-- What a reader of standard error is shown of one line. -/
def shownLine (line : String) : Option String :=
  match logLevel? line with
  | some (label, rest) => if label == "ERROR" then some rest else none
  | none => some line

/-- What a reader of standard error is shown of a text, line by line. -/
def shownLines (text : String) : List String :=
  (textLines (stripAnsi text)).filterMap shownLine

end ArchiveStore.Console
