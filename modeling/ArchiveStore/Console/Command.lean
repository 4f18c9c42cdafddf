import ArchiveStore.Console.Similar

/-!
# The inspection tool's command line

The inspection tool takes global options, then one command with options and arguments of
its own:

* `-d`, `--data-dir DIR` (default `./archivedb_data`), `-h`/`--help`, `-V`/`--version`;
* `namespaces`, `buckets --ns NS`, `get --ns NS [--bucket B | --doc] [--json] KEY`,
  `count --ns NS [--bucket B]`, `compact`, and `help [COMMAND]...`.

`Invocation.ofArgs` reads the words the tool was started with. It either names the work to
do, or gives a text to print instead: a help or version text, which ends the run with
status 0, or a complaint, which ends it with status 2.

Words are read one at a time, as `Reading` records. An option that takes a value waits for
the next word unless the value is attached (`--ns=x`, `-dx`); a word that looks like an option
is never taken as a value, and any other word is, even a command name. A bare `--` makes every
later word plain: the value of an option still waiting, or else an argument. Elsewhere a
command name seen at the top level starts that command. After the last word, an option still
waiting for its value is an error; then options given together that exclude each other, then
required parameters that are missing. A path may not be empty.

A complaint names the offending word, adds a tip where a known name is close to it
(`Console.similar`), and shows a usage line: the command's general one, or one built from
the parameters that were given and those that are required.
-/

namespace ArchiveStore.Console

/-- The name the tool is started by. -/
def toolName : String := "archivedb-ctl"

/-- The tool's version. -/
def toolVersion : String := "0.1.0"

/-- The data directory used when none is given. -/
def defaultDataDir : String := "./archivedb_data"

/-- What the tool prints for its version. -/
def versionText : String := toolName ++ " " ++ toolVersion ++ "\n"

/-- What giving a switch does: it is recorded, or the tool prints a text and stops. -/
inductive Action where
  | record
  | showHelp
  | showVersion
deriving DecidableEq, Repr

/-- An option or positional argument of a command. -/
structure Param where
  /-- The name it is known by: an option's long name, an argument's value name. -/
  id : String
  /-- The one-letter name of an option, if it has one. -/
  short : Option Char := none
  /-- Whether it is a positional argument rather than an option. -/
  positional : Bool := false
  /-- The name of the value an option takes; an option without one is a switch. -/
  valueName : Option String := none
  help : String := ""
  /-- The value used when the option is not given, as the help text shows it. -/
  defaultValue : Option String := none
  required : Bool := false
  /-- The ids of the parameters it may not be given with. -/
  excludes : List String := []
  action : Action := .record
  /-- Whether an empty value is refused, as it is for a path. -/
  needsText : Bool := false
deriving Repr

namespace Param

/-- Whether the parameter takes a value. -/
def takesValue (p : Param) : Bool := p.positional || p.valueName.isSome

/-- How the parameter is named in complaints and usage lines. -/
def shown (p : Param) : String :=
  if p.positional then "<" ++ p.id ++ ">"
  else "--" ++ p.id ++ (match p.valueName with
    | some v => " <" ++ v ++ ">"
    | none => "")

/-- How the parameter is named inside a group of a usage line: an argument by its bare name. -/
def groupShown (p : Param) : String := if p.positional then p.id else p.shown

/-- How the parameter is listed in a help text. -/
def spec (p : Param) : String :=
  if p.positional then p.shown
  else (match p.short with
    | some c => "-" ++ c.toString ++ ", "
    | none => "    ") ++ p.shown

/-- The parameter's help, with its default value. -/
def helpLine (p : Param) : String :=
  match p.defaultValue with
  | some d => p.help ++ " [default: " ++ d ++ "]"
  | none => p.help

end Param

/-- The switch that prints a command's help. -/
def helpSwitch : Param := { id := "help", short := some 'h', help := "Print help", action := .showHelp }

/-- The switch that prints the tool's version. -/
def versionSwitch : Param :=
  { id := "version", short := some 'V', help := "Print version", action := .showVersion }

/-- The option naming the data directory. -/
def dataDirOption : Param :=
  { id := "data-dir", short := some 'd', valueName := some "DATA_DIR", help := "Data directory",
    defaultValue := some defaultDataDir, needsText := true }

/-- The option naming the namespace a command reads. -/
def namespaceOption : Param := { id := "ns", valueName := some "NS", required := true }

/-- The option naming a user bucket, with the parameters it excludes. -/
def bucketOption (excludes : List String) : Param :=
  { id := "bucket", valueName := some "BUCKET", help := "User bucket (default: the object bucket)",
    excludes }

/-- A command of the tool, or the tool itself. -/
structure CommandSpec where
  /-- The command's name; empty for the tool itself. -/
  name : String
  about : String
  params : List Param
  /-- Whether it is followed by a command of its own. -/
  hasCommands : Bool := false
deriving Repr

/-- The commands of the tool, in the order its help lists them. -/
def commandSpecs : List CommandSpec := [
  { name := "namespaces", about := "List persisted namespaces", params := [helpSwitch] },
  { name := "buckets", about := "List persisted user buckets of a namespace",
    params := [namespaceOption, helpSwitch] },
  { name := "get", about := "Print one entry",
    params := [namespaceOption, bucketOption ["doc"],
      { id := "doc", help := "Read from the document bucket" },
      { id := "json", help := "Print as JSON" },
      { id := "KEY", positional := true, required := true },
      helpSwitch] },
  { name := "count", about := "Count entries of a bucket",
    params := [namespaceOption, bucketOption [], helpSwitch] },
  { name := "compact", about := "Flush and compact the store", params := [helpSwitch] }]

/-- What the `help` command does. -/
def helpCommandAbout : String := "Print this message or the help of the given subcommand(s)"

/-- The usage line of the `help` command. -/
def helpCommandUsage : String := toolName ++ " help [COMMAND]..."

/-- The names a command word may be: every command, and `help`. -/
def commandNames : List String := commandSpecs.map (·.name) ++ ["help"]

/-- The tool itself, with its global options. -/
def mainSpec : CommandSpec :=
  { name := "", about := "Inspect an archivedb store",
    params := [dataDirOption, helpSwitch, versionSwitch], hasCommands := true }

/-- A run of spaces. -/
def spaces (n : Nat) : String := String.ofList (List.replicate n ' ')

/-- Two columns, indented by two spaces, the second starting two spaces after the widest
entry of the first. -/
def table (rows : List (String × String)) : String :=
  let width := rows.foldl (fun w r => max w r.1.length) 0
  "\n".intercalate (rows.map fun (l, r) => "  " ++ l ++ spaces (width - l.length + 2) ++ r)

/-- The first occurrence of each name, in order. -/
def firsts (names : List String) : List String :=
  names.foldl (fun acc n => if acc.contains n then acc else acc ++ [n]) []

namespace CommandSpec

/-- The words a usage line starts with. -/
def usageName (c : CommandSpec) : String :=
  if c.name.isEmpty then toolName else toolName ++ " " ++ c.name

/-- The options of a command. -/
def options (c : CommandSpec) : List Param := c.params.filter (!·.positional)

/-- The positional arguments of a command, in order. -/
def arguments (c : CommandSpec) : List Param := c.params.filter (·.positional)

/-- The parameter of an id. -/
def find? (c : CommandSpec) (id : String) : Option Param := c.params.find? (·.id == id)

/-- The option of a one-letter name. -/
def findShort? (c : CommandSpec) (ch : Char) : Option Param :=
  c.options.find? (·.short == some ch)

/-- The parameters of a command's group: all that are recorded when given. -/
def groupMembers (c : CommandSpec) : List Param := c.params.filter (·.action == .record)

/-- How a command's group is named in a usage line. -/
def groupText (c : CommandSpec) : String :=
  "<" ++ "|".intercalate (c.groupMembers.map Param.groupShown) ++ ">"

/-- Whether two parameters may not be given together. -/
def excludes (c : CommandSpec) (a b : String) : Bool :=
  ((c.find? a).any fun p => p.excludes.contains b) || ((c.find? b).any fun p => p.excludes.contains a)

/-- The ids of the required parameters. -/
def requiredIds (c : CommandSpec) : List String := (c.params.filter (·.required)).map (·.id)

/-- What a usage line ends with when a command must follow. -/
def commandTag (c : CommandSpec) : String := if c.hasCommands then " <COMMAND>" else ""

/-- The usage line a command's help shows. -/
def generalUsage (c : CommandSpec) : String :=
  let optional := c.options.any fun p => p.action == .record && !p.required
  c.usageName ++ (if optional then " [OPTIONS]" else "") ++
    String.join ((c.options.filter (·.required)).map (" " ++ ·.shown)) ++
    String.join (c.arguments.map (" " ++ ·.shown)) ++ c.commandTag

/-- The usage line of the required parameters and those given: options first, required ones
first among them, then the command's group if it is shown, then arguments. A shown group
stands for all its members. -/
def smartUsage (c : CommandSpec) (used : List String) (withGroup : Bool := false) : String :=
  let ids := firsts (c.requiredIds ++ used)
  let inGroup := fun (p : Param) => withGroup && c.groupMembers.any (·.id == p.id)
  let opts := (ids.filterMap fun id => c.options.find? (·.id == id)).filter (!inGroup ·)
  let args := c.arguments.filter fun p => ids.contains p.id && !inGroup p
  c.usageName ++ String.join (opts.map (" " ++ ·.shown)) ++
    (if withGroup then " " ++ c.groupText else "") ++
    String.join (args.map (" " ++ ·.shown)) ++ c.commandTag

/-- The usage line for the parameters given, or the general one when none are. -/
def usageFor (c : CommandSpec) (used : List String) : String :=
  if used.isEmpty then c.generalUsage else c.smartUsage used

/-- The help text of a command. -/
def helpText (c : CommandSpec) : String :=
  let commandRows := commandSpecs.map (fun s => (s.name, s.about)) ++ [("help", helpCommandAbout)]
  let sections :=
    (if c.hasCommands then ["Commands:\n" ++ table commandRows] else []) ++
    (if c.arguments.isEmpty then []
      else ["Arguments:\n" ++ table (c.arguments.map fun p => (p.spec, p.helpLine))]) ++
    (if c.options.isEmpty then []
      else ["Options:\n" ++ table (c.options.map fun p => (p.spec, p.helpLine))])
  c.about ++ "\n\nUsage: " ++ c.generalUsage ++ "\n\n" ++ "\n\n".intercalate sections ++ "\n"

end CommandSpec

/-- The help text of the `help` command. -/
def helpCommandText : String :=
  helpCommandAbout ++ "\n\nUsage: " ++ helpCommandUsage ++ "\n\nArguments:\n" ++
    table [("[COMMAND]...", "Print help for the subcommand(s)")] ++ "\n"

/-- Why the words the tool was started with do not make a run. -/
inductive Complaint where
  /-- A word that is no parameter here, with tips. -/
  | unexpected (word : String) (tips : List String) (usage : String)
  /-- A word where a command name belongs, with the similar names; the last flag says whether
  the complaint ends by pointing to the help. -/
  | unknownCommand (word : String) (similar : List String) (usage : String) (pointToHelp : Bool)
  | noValue (param : String)
  | extraValue (value param : String) (usage : String)
  | repeated (param : String) (usage : String)
  | conflict (param : String) (others : List String) (usage : String)
  | missing (params : List String) (usage : String)
  | noCommand (names : List String) (usage : String)
deriving Repr

namespace Complaint

/-- A name in single quotes. -/
def quote (s : String) : String := "'" ++ s ++ "'"

/-- The tip lines under a complaint's first line. -/
def tipLines (tips : List String) : String :=
  if tips.isEmpty then "" else "\n" ++ String.join (tips.map ("\n  tip: " ++ ·))

/-- The tip naming known names close to a word. -/
def similarTip (kind : String) : List String → List String
  | [] => []
  | [n] => ["a similar " ++ kind ++ " exists: " ++ quote n]
  | ns => ["some similar " ++ kind ++ "s exist: " ++ ", ".intercalate (ns.map quote)]

/-- The tip for passing a word that looks like an option as an argument. -/
def escapeTip (word : String) : List String :=
  ["to pass " ++ quote word ++ " as a value, use " ++ quote ("-- " ++ word)]

/-- The usage part of a complaint. -/
def usageLines (usage : String) : String := "\n\nUsage: " ++ usage

/-- The last line of a complaint. -/
def helpPointer : String := "\n\nFor more information, try '--help'.\n"

/-- The text of a complaint, as the tool writes it to standard error. -/
def text : Complaint → String
  | .unexpected w tips u =>
    "error: unexpected argument " ++ quote w ++ " found" ++ tipLines tips ++ usageLines u ++
      helpPointer
  | .unknownCommand w similar u pointToHelp =>
    "error: unrecognized subcommand " ++ quote w ++ tipLines (similarTip "subcommand" similar) ++
      usageLines u ++ (if pointToHelp then helpPointer else "\n")
  | .noValue p => "error: a value is required for " ++ quote p ++ " but none was supplied" ++ helpPointer
  | .extraValue v p u =>
    "error: unexpected value " ++ quote v ++ " for " ++ quote p ++ " found; no more were expected" ++
      usageLines u ++ helpPointer
  | .repeated p u =>
    "error: the argument " ++ quote p ++ " cannot be used multiple times" ++ usageLines u ++ helpPointer
  | .conflict p others u =>
    let rest := match others with
      | [o] => " " ++ quote o
      | os => ":" ++ String.join (os.map ("\n  " ++ ·))
    "error: the argument " ++ quote p ++ " cannot be used with" ++ rest ++ usageLines u ++ helpPointer
  | .missing ps u =>
    "error: the following required arguments were not provided:" ++
      String.join (ps.map ("\n  " ++ ·)) ++ usageLines u ++ helpPointer
  | .noCommand names u =>
    "error: " ++ quote toolName ++ " requires a subcommand but one was not provided\n  [subcommands: " ++
      ", ".intercalate names ++ "]" ++ usageLines u ++ helpPointer

end Complaint

/-- What the tool is asked to do. -/
inductive Command where
  | namespaces
  | buckets (space : String)
  | get (space : String) (bucket : Option String) (document json : Bool) (key : String)
  | count (space : String) (bucket : Option String)
  | compact
deriving DecidableEq, Repr

/-- Whether a command writes to the store, which it then opens for writing. -/
def Command.writes : Command → Bool
  | .compact => true
  | _ => false

/-- What the words the tool was started with come to. -/
inductive Invocation where
  /-- Run a command on the store of a data directory. -/
  | run (dataDir : String) (command : Command)
  /-- Print a text on standard output and stop with status 0. -/
  | answer (text : String)
  /-- Print a text on standard error and stop with status 2. -/
  | reject (text : String)
deriving DecidableEq, Repr

/-- Where the reading of one command's words stands. -/
structure Reading where
  /-- The parameters given, with their values, in the order they were given. -/
  given : List (String × String) := []
  /-- An option waiting for its value, with the value once it came; or an argument with its
  value, which is recorded at the next option or at the end. -/
  pending : Option (Param × Option String) := none
  /-- Whether a bare -- was seen, after which every word is an argument. -/
  escaped : Bool := false
  /-- How many positional arguments have their value. -/
  filled : Nat := 0

namespace Reading

/-- Whether a parameter was given. -/
def has (r : Reading) (id : String) : Bool := r.given.any (·.1 == id)

/-- The value a parameter was given. -/
def value? (r : Reading) (id : String) : Option String := r.given.lookup id

/-- The ids of the parameters given. -/
def present (r : Reading) : List String := r.given.map (·.1)

/-- Records a parameter with its value; a parameter may be given once, and a path may not be
empty. -/
def record (c : CommandSpec) (r : Reading) (p : Param) (v : String) : Except Invocation Reading :=
  if r.has p.id then .error (.reject (Complaint.repeated p.shown c.generalUsage).text)
  else if p.needsText && v.isEmpty then .error (.reject (Complaint.noValue p.shown).text)
  else .ok { r with given := r.given ++ [(p.id, v)] }

/-- Settles the parameter waiting for a value: it must have one. -/
def settle (c : CommandSpec) (r : Reading) : Except Invocation Reading :=
  match r.pending with
  | none => .ok r
  | some (p, none) => .error (.reject (Complaint.noValue p.shown).text)
  | some (p, some v) => record c { r with pending := none } p v

/-- Settles the option waiting for a value where a failure goes unreported: an option without
a value is dropped, and one given twice is dropped altogether. -/
def settleQuietly (r : Reading) : Reading :=
  match r.pending with
  | some (p, some v) =>
    if r.has p.id then { r with pending := none, given := r.given.filter (·.1 != p.id) }
    else { r with pending := none, given := r.given ++ [(p.id, v)] }
  | _ => { r with pending := none }

/-- Gives a switch: it is recorded, or it prints its text. -/
def toggle (c : CommandSpec) (r : Reading) (p : Param) : Except Invocation Reading := do
  let r ← r.settle c
  match p.action with
  | .showHelp => .error (.answer c.helpText)
  | .showVersion => .error (.answer versionText)
  | .record => r.record c p ""

end Reading

/-- The long options of a command. -/
def longNames (c : CommandSpec) : List String := c.options.map (·.id)

/-- A known long option close to an unknown one: one of the command's own, or else one of a
command named among the later words, the earliest named first. -/
def suggestLong (c : CommandSpec) (name : String) (later : List String) :
    Option (String × Option String) :=
  match (similar name (longNames c)).getLast? with
  | some f => some (f, none)
  | none =>
    if !c.hasCommands then none
    else
      let scored := commandSpecs.filterMap fun s =>
        match (similar name (longNames s)).getLast?, later.findIdx? (· == s.name) with
        | some f, some i => some (i, (f, some s.name))
        | _, _ => none
      let best := scored.foldl (fun best x =>
        match best with
        | none => some x
        | some b => if x.1 < b.1 then some x else some b) none
      best.map (·.2)

/-- The complaint about an unknown long option. -/
def unknownLong (c : CommandSpec) (r : Reading) (name : String) (later : List String) : Complaint :=
  let r := r.settleQuietly
  let suggestion := suggestLong c name later
  let used := match suggestion with
    | some (f, none) => firsts (r.present ++ [f])
    | _ => r.present
  let tips := match suggestion with
    | some (f, none) => ["a similar argument exists: '--" ++ f ++ "'"]
    | some (f, some sub) => ["'" ++ sub ++ " --" ++ f ++ "' exists"]
    | none => if !r.escaped && !c.arguments.isEmpty then Complaint.escapeTip ("--" ++ name) else []
  .unexpected ("--" ++ name) tips (c.usageFor used)

/-- Reads a word of the form --name or --name=value. -/
def readLong (c : CommandSpec) (r : Reading) (body : List Char) (later : List String) :
    Except Invocation Reading :=
  let name := String.ofList (body.takeWhile (· != '='))
  let attached := match body.dropWhile (· != '=') with
    | _ :: v => some (String.ofList v)
    | [] => none
  match c.options.find? (·.id == name) with
  | some p =>
    if p.takesValue then do
      let r ← r.settle c
      match attached with
      | some v => r.record c p v
      | none => return { r with pending := some (p, none) }
    else
      match attached with
      | some v =>
        let used := (r.present.filter fun id => !c.requiredIds.contains id) ++ [p.id]
        let withGroup := c.groupMembers.any fun m => r.has m.id
        .error (.reject (Complaint.extraValue v p.shown (c.smartUsage used withGroup)).text)
      | none => r.toggle c p
  | none => .error (.reject (unknownLong c r name later).text)

/-- Reads a cluster of one-letter options; an option that takes a value takes the rest of the
cluster, after an optional =, or else the next word. -/
def readShort (c : CommandSpec) (r : Reading) : List Char → Except Invocation Reading
  | [] => .ok r
  | ch :: more =>
    match c.findShort? ch with
    | none =>
      let word := "-" ++ ch.toString
      let r := r.settleQuietly
      let tips := if !r.escaped && !c.arguments.isEmpty then Complaint.escapeTip word else []
      .error (.reject (Complaint.unexpected word tips c.generalUsage).text)
    | some p =>
      if p.takesValue then do
        let r ← r.settle c
        let attached := match more with
          | '=' :: v => some (String.ofList v)
          | [] => none
          | _ => some (String.ofList more)
        match attached with
        | some v => r.record c p v
        | none => return { r with pending := some (p, none) }
      else do
        let r ← r.toggle c p
        readShort c r more

/-- The complaint about a word for which there is no place. -/
def strayWord (c : CommandSpec) (r : Reading) (w : String) : Complaint :=
  if r.escaped && c.hasCommands && commandNames.contains w then
    .unexpected w ["subcommand " ++ Complaint.quote w ++ " exists; to use it, remove the '--' before it"]
      c.generalUsage
  else if c.hasCommands then .unknownCommand w (similar w commandNames) c.generalUsage true
  else .unexpected w [] c.generalUsage

/-- Reads a word that is no option: the value an option waits for, or the next argument. -/
def readPlain (c : CommandSpec) (r : Reading) (w : String) : Except Invocation Reading :=
  match r.pending with
  | some (p, none) => .ok { r with pending := some (p, some w) }
  | _ =>
    match c.arguments[r.filled]? with
    | some p => do
      let r ← r.settle c
      return { r with pending := some (p, some w), filled := r.filled + 1 }
    | none => .error (.reject (strayWord c r.settleQuietly w).text)

/-- Whether an option waits for its value, which the next plain word then is; after a bare
-- every word is plain. -/
def Reading.waiting (r : Reading) : Bool :=
  match r.pending with
  | some (_, none) => true
  | _ => false

/-- Whether a word looks like an option. -/
def flagLike (w : String) : Bool := w.startsWith "-" && w.length > 1

/-- Reads a command's words; where commands may follow, stops at the first command name and
gives it with the words after it. -/
def readWords (c : CommandSpec) :
    Reading → List String → Except Invocation (Reading × Option (String × List String))
  | r, [] => .ok (r, none)
  | r, w :: later =>
    if r.waiting && (r.escaped || !flagLike w) then do
      let r ← readPlain c r w
      readWords c r later
    else if !r.escaped && c.hasCommands && commandNames.contains w then .ok (r, some (w, later))
    else if !r.escaped && w == "--" then readWords c { r with escaped := true } later
    else if !r.escaped && w.startsWith "--" then do
      let r ← readLong c r (w.toList.drop 2) later
      readWords c r later
    else if !r.escaped && w.startsWith "-" && w.length > 1 then do
      let r ← readShort c r (w.toList.drop 1)
      readWords c r later
    else do
      let r ← readPlain c r w
      readWords c r later

/-- Checks a command's words once all are read: no option waits for a value, no two given
parameters exclude each other, and every required one is given. -/
def finishCommand (c : CommandSpec) (r : Reading) : Except Invocation Reading := do
  let r ← r.settle c
  let clash := r.present.findSome? fun id =>
    match r.present.filter fun o => o != id && c.excludes id o with
    | [] => none
    | others => some (id, others)
  match clash with
  | some (id, others) =>
    let used := r.present.filter fun o => !others.contains o
    let shown := fun i => ((c.find? i).map Param.shown).getD i
    .error (.reject (Complaint.conflict (shown id) (others.map shown) (c.usageFor used)).text)
  | none =>
    let missing := (c.options ++ c.arguments).filter fun p => p.required && !r.has p.id
    if missing.isEmpty then return r
    else
      let used := r.present ++ missing.map (·.id)
      .error (.reject (Complaint.missing (missing.map Param.shown) (c.smartUsage used)).text)

/-- Whose help the `help` command has reached. -/
inductive HelpTarget where
  | tool
  | command (c : CommandSpec)
  | helpItself

/-- The help the `help` command prints for the command names it was given. -/
def helpFor : HelpTarget → List String → Invocation
  | .tool, [] => .answer mainSpec.helpText
  | .command c, [] => .answer c.helpText
  | .helpItself, [] => .answer helpCommandText
  | .tool, w :: later =>
    if w == "help" then helpFor .helpItself later
    else match commandSpecs.find? (·.name == w) with
      | some c => helpFor (.command c) later
      | none => .reject (Complaint.unknownCommand w [] mainSpec.generalUsage true).text
  | .command c, w :: _ => .reject (Complaint.unknownCommand w [] c.generalUsage true).text
  | .helpItself, w :: _ => .reject (Complaint.unknownCommand w [] helpCommandUsage false).text

/-- The command a command's words name. -/
def commandOf (name : String) (r : Reading) : Command :=
  let space := (r.value? "ns").getD ""
  if name == "namespaces" then .namespaces
  else if name == "buckets" then .buckets space
  else if name == "get" then
    .get space (r.value? "bucket") (r.has "doc") (r.has "json") ((r.value? "KEY").getD "")
  else if name == "count" then .count space (r.value? "bucket")
  else .compact

/-- Reads the words the tool was started with. -/
def Invocation.ofArgs (args : List String) : Invocation :=
  let outcome : Except Invocation Invocation := do
    let (r, next) ← readWords mainSpec {} args
    match next with
    | none =>
      let r ← r.settle mainSpec
      if r.given.isEmpty then .error (.reject mainSpec.helpText)
      else .error (.reject (Complaint.noCommand commandNames mainSpec.generalUsage).text)
    | some (name, later) =>
      if name == "help" then .error (helpFor .tool later)
      else
        match commandSpecs.find? (·.name == name) with
        | none => .error (.reject (Complaint.unknownCommand name [] mainSpec.generalUsage true).text)
        | some c =>
          let (rc, _) ← readWords c {} later
          let rc ← finishCommand c rc
          let r ← r.settle mainSpec
          return .run ((r.value? "data-dir").getD defaultDataDir) (commandOf name rc)
  match outcome with
  | .ok i => i
  | .error i => i

end ArchiveStore.Console
