import ArchiveStore.Console.Run
import ArchiveStore.Image

/-!
# The inspection tool as a program

`main` runs the inspection tool on this machine's files. It reads the store file of the data
directory the words name, as a `Table.image`, into a host that has that file under the
directory; runs `Console.execute` on it; writes the store back when the command writes and
succeeded; and prints what the run printed, ending with its status.
-/

namespace ArchiveStore.Console

/-- The host a run sees: the directories of the data directory's path, and the store file
if there is one. -/
def hostWith (dataDir : String) (image : Option Bytes) : Host :=
  let host := match Host.fresh.createDirAll dataDir with
    | .ok h => h
    | .error _ => Host.fresh
  match image with
  | none => host
  | some bs =>
    let content := match Table.ofImage bs with
      | some t => FileContent.store t
      | none => FileContent.raw bs
    match host.writeFile (StoreFile.pathIn dataDir) content with
    | .ok h => h
    | .error _ => host

/-- The table in the store file of a data directory of a host. -/
def storedTable (host : Host) (dataDir : String) : Option Table :=
  match host.readFile (StoreFile.pathIn dataDir) with
  | .ok (.store t) => some t
  | _ => none

end ArchiveStore.Console

open ArchiveStore ArchiveStore.Console

/-- Runs the inspection tool on this machine's files. -/
def main (args : List String) : IO UInt32 := do
  let target := match Invocation.ofArgs args with
    | .run dataDir cmd => some (dataDir, cmd.writes)
    | _ => none
  let image ← match target with
    | some (dataDir, _) =>
      try pure (some (← IO.FS.readBinFile (StoreFile.pathIn dataDir)).data.toList)
      catch _ => pure none
    | none => pure none
  let (out, after) := execute (hostWith ((target.map (·.1)).getD "") image) args
  match target with
  | some (dataDir, true) =>
    if out.code == 0 then
      match storedTable after dataDir with
      | some t =>
        IO.FS.createDirAll dataDir
        IO.FS.writeBinFile (StoreFile.pathIn dataDir) (ByteArray.mk t.image.toArray)
      | none => pure ()
  | _ => pure ()
  let stdout ← IO.getStdout
  stdout.write (ByteArray.mk out.stdout.toArray)
  stdout.flush
  let stderr ← IO.getStderr
  stderr.putStr out.stderr
  stderr.flush
  return out.code.toUInt32
