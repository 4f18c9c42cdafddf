/-!
# Paths

Paths are texts in slash notation. A program reasons about them in two ways, and the two
differ at the edges:

* lexically, by components (`Path.components`): repeated slashes collapse, a `.` counts
  only at the start of a relative path, and `Path.parent?` drops the last component.
  Making a directory tree climbs with this parent.
* physically, part by part as the operating system resolves them (`Host.locate`): every
  part but the last must lead through a directory, `.` and `..` included, and a trailing
  slash asks for a directory.

`Path.join` appends a relative path to a directory with one slash between them.
-/

namespace ArchiveStore.Path

/-- One component of a path. -/
inductive Part where
  /-- The leading slash of an absolute path. -/
  | root
  /-- A leading `.` of a relative path. -/
  | here
  /-- A `..`. -/
  | up
  /-- Any other name. -/
  | name (s : String)
deriving DecidableEq, Repr

/-- The text of a component. -/
def Part.text : Part → String
  | .root => ""
  | .here => "."
  | .up => ".."
  | .name s => s

/-- The component a slash-separated part is, given whether it is the first part of a
relative path; empty parts and inner dots are no component. -/
def partOf (leading : Bool) (p : String) : Option Part :=
  if p.isEmpty then none
  else if p == "." then (if leading then some .here else none)
  else if p == ".." then some .up
  else some (.name p)

/-- The components of a path. -/
def components (path : String) : List Part :=
  match path.splitOn "/" with
  | [] => []
  | first :: rest =>
    let body := rest.filterMap (partOf false)
    if path.startsWith "/" then .root :: body
    else (partOf true first).toList ++ body

/-- A path written from its components. -/
def ofComponents : List Part → String
  | .root :: rest => "/" ++ "/".intercalate (rest.map Part.text)
  | parts => "/".intercalate (parts.map Part.text)

/-- The path without its last component: none for a root or an empty path, and the empty
path for a single relative name. -/
def parent? (path : String) : Option String :=
  let cs := components path
  match cs.getLast? with
  | none | some .root => none
  | some _ => some (ofComponents cs.dropLast)

/-- A path joined to a relative one, with one slash between them; an absolute second path
replaces the first. -/
def join (dir name : String) : String :=
  if name.startsWith "/" then name
  else if dir.isEmpty then name
  else if dir.endsWith "/" then dir ++ name
  else dir ++ "/" ++ name

end ArchiveStore.Path
