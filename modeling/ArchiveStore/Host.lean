import ArchiveStore.Table
import ArchiveStore.Host.Path
/-!
# The host's files

The part of a machine's file system that stores live in: directories, files of raw bytes,
and store files. A store file is kept as the table it holds.

`Host.scenarioRoot`, the directory a session works in, stands for itself at the start of a
path; any other relative path is taken from there. Paths resolve as the operating system
resolves them (`Host.locate`): a part that leads through a file fails with
`notADirectory`, through nothing with `noEntry`. On that walk

* `Host.stat` says what stands at a path,
* `Host.makeDirectory` makes one directory (`fileExists` when the name is taken),
* `Host.createDirAll` makes a directory and its missing parents, climbing by lexical parents
  and accepting a directory that is already there,
* `Host.writeFile` writes a file (`isADirectory` on a directory).
-/

namespace ArchiveStore

/-- What a file holds. -/
inductive FileContent where
  /-- Bytes written by someone other than a store. -/
  | raw (bytes : Bytes)
  /-- A store holding a table. -/
  | store (t : Table)

/-- What stands at a path. -/
inductive Node where
  | directory
  | file (content : FileContent)

/-- Whether a node is a directory. -/
def Node.isDirectory : Node → Bool
  | .directory => true
  | .file _ => false

/-- The files and directories of a machine, by absolute location: the names from the root
down. -/
structure Host where
  nodes : List (List String × Node)

namespace Host

/-- The name of the directory a session works in; paths may start with it. -/
def scenarioRoot : String := "<dir>"

/-- A machine with nothing but the session's directory. -/
def fresh : Host := ⟨[([scenarioRoot], .directory)]⟩

/-- What stands at a location; the root is a directory. -/
def node? (h : Host) (loc : List String) : Option Node :=
  if loc.isEmpty then some .directory else h.nodes.lookup loc

/-- The host with a node set at a location. -/
def set (h : Host) (loc : List String) (n : Node) : Host :=
  ⟨(h.nodes.filter fun e => e.1 != loc) ++ [(loc, n)]⟩

/-- Where a path leads. -/
structure Target where
  /-- The location of the last part. -/
  loc : List String
  /-- The path ends in a slash, `.` or `..`, so what it names must be a directory. -/
  dirOnly : Bool
  /-- The path ends in `.` or `..`, which always name an existing directory. -/
  dotted : Bool

/-- Checks that a location is a directory the walk can look into. -/
def enter (h : Host) (loc : List String) : Except IoFailure Unit :=
  match h.node? loc with
  | some .directory => .ok ()
  | some (.file _) => .error .notADirectory
  | none => .error .noEntry

/-- Walks the slash-separated parts of a path from a location. -/
def walk (h : Host) (loc : List String) : List String → Except IoFailure Target
  | [] => .ok ⟨loc, false, false⟩
  | p :: rest =>
    if p.isEmpty then
      if rest.isEmpty then .ok ⟨loc, true, false⟩ else h.walk loc rest
    else
      match h.enter loc with
      | .error e => .error e
      | .ok () =>
        let dot := p == "." || p == ".."
        let next := if p == "." then loc else if p == ".." then loc.dropLast else loc ++ [p]
        if rest.isEmpty then .ok ⟨next, dot, dot⟩ else h.walk next rest

/-- Where a path leads: absolute paths and paths that start with the session's directory
from the root, other paths from the session's directory. The empty path leads nowhere. -/
def locate (h : Host) (path : String) : Except IoFailure Target :=
  let parts := path.splitOn "/"
  if path.isEmpty then .error .noEntry
  else if path.startsWith "/" || parts.head? == some scenarioRoot then h.walk [] parts
  else h.walk [scenarioRoot] parts

/-- What stands at a path. -/
def stat (h : Host) (path : String) : Except IoFailure Node := do
  let t ← h.locate path
  match h.node? t.loc with
  | none => .error .noEntry
  | some (.file c) => if t.dirOnly then .error .notADirectory else .ok (.file c)
  | some .directory => .ok .directory

/-- Whether something stands at a path. -/
def exists? (h : Host) (path : String) : Bool :=
  match h.stat path with
  | .ok _ => true
  | .error _ => false

/-- Whether a directory stands at a path. -/
def isDirectory (h : Host) (path : String) : Bool :=
  match h.stat path with
  | .ok .directory => true
  | _ => false

/-- Makes one directory. -/
def makeDirectory (h : Host) (path : String) : Except IoFailure Host := do
  let t ← h.locate path
  if t.dotted || t.loc.isEmpty then .error .fileExists
  else
    match h.node? t.loc with
    | some _ => .error .fileExists
    | none => .ok (h.set t.loc .directory)

/-- Makes a directory and its missing parents, with fuel for the climb; a directory that
is already there is fine. -/
def createDirAllFuel (h : Host) : Nat → String → Except IoFailure Host
  | 0, _ => .ok h
  | fuel + 1, path =>
    if (Path.components path).isEmpty then .ok h
    else
      let settle (h : Host) (e : IoFailure) : Except IoFailure Host :=
        if h.isDirectory path then .ok h else .error e
      match h.makeDirectory path with
      | .ok h => .ok h
      | .error .noEntry =>
        match Path.parent? path with
        | none => .error .noEntry
        | some up =>
          match h.createDirAllFuel fuel up with
          | .error e => .error e
          | .ok h =>
            match h.makeDirectory path with
            | .ok h => .ok h
            | .error e => settle h e
      | .error e => settle h e

/-- Makes a directory and its missing parents; a directory that is already there is fine.
Every climb drops a component, so one step per component suffices. -/
def createDirAll (h : Host) (path : String) : Except IoFailure Host :=
  h.createDirAllFuel ((Path.components path).length + 1) path

/-- Writes a file, replacing what it held. -/
def writeFile (h : Host) (path : String) (content : FileContent) : Except IoFailure Host := do
  let t ← h.locate path
  match h.node? t.loc with
  | some .directory => .error .isADirectory
  | some (.file _) => if t.dirOnly then .error .notADirectory else .ok (h.set t.loc (.file content))
  | none => if t.dirOnly then .error .isADirectory else .ok (h.set t.loc (.file content))

/-- What the file at a path holds, opened for reading and writing. -/
def readFile (h : Host) (path : String) : Except IoFailure FileContent := do
  match ← h.stat path with
  | .directory => .error .isADirectory
  | .file c => .ok c

end Host

end ArchiveStore
