import CloudLedger.CommandLine
import Std.Time.DateTime.Timestamp

/-!
# The program

Runs the command line on the real disk.  What the settings name is first read into a `Disk`; the run
itself is then a pure function of it, and the journal of its changes is repeated on the real disk in
the same order.
-/

namespace CloudLedger.Program

open Files

def placeText (place : Place) : String := "/" ++ joinSlashes place

/-- Set what a disk has at a place, unless it is a folder that is always there. -/
def noted (disk : Disk) (place : Place) (entry : Entry) : Disk :=
  if place.isPrefixOf disk.here then disk else disk.put place entry

/-- How deep folders are searched for exports. -/
def deepest : Nat := 256

/-- Read the entry at a place of the real disk. -/
def loadEntry (disk : Disk) (place : Place) : IO Disk := do
  let path := (← IO.currentDir) / placeText place
  if ← path.isDir then return noted disk place .folder
  if ← path.pathExists then
    return noted disk place (.file (← IO.FS.readBinFile path).toList)
  return disk

/-- Read the entry at a place, and all entries below it down to some depth.  A folder that the
machine does not list is noted as one. -/
def loadBelow : Nat → Disk → Place → IO Disk
  | 0, disk, place => loadEntry disk place
  | depth + 1, disk, place => do
    let disk ← loadEntry disk place
    let path := (← IO.currentDir) / placeText place
    if ← path.isDir then
      let listed ← try some <$> path.readDir catch _ => pure none
      match listed with
      | some entries =>
        entries.foldlM (fun disk entry ↦ loadBelow depth disk (place ++ [entry.fileName])) disk
      | none => return { disk with unlisted := place :: disk.unlisted }
    else return disk

/-- Read all places on the way of a path, and what it holds down to some depth. -/
def loadPath (depth : Nat) (disk : Disk) (path : FilePath) : IO Disk := do
  let disk ← (disk.waypoints path).foldlM loadEntry disk
  match disk.locate path with
  | .ok place => loadBelow depth disk place
  | .error _ => return disk

/-- Read what a run with some settings can come upon. -/
def loadFor (settings : Settings) (env : Environment) : IO Disk := do
  let here := ((FilePath.mk (← IO.currentDir).toString).names)
  let disk : Disk := { here }
  match settings.configuration env.instant env.zones with
  | .error _ => return disk
  | .ok configuration =>
    let disk ← (settings.paths env.home configuration.today).foldlM (loadPath 0) disk
    settings.gcpFolder.toList.foldlM (loadPath deepest) disk

/-- Repeat a change on the real disk. -/
def repeatChange : Change → IO Unit
  | .madeFolder place => IO.FS.createDir (placeText place)
  | .wrote place content => IO.FS.writeBinFile (placeText place) ⟨content.toArray⟩
  | .moved source target => IO.FS.rename (placeText source) (placeText target)
  | .removed place => IO.FS.removeFile (placeText place)

/-- What the machine tells about a run. -/
def environment : IO Environment := do
  let home := (← IO.getEnv "HOME").getD "."
  let region ← IO.getEnv "AWS_REGION"
  let now ← Std.Time.Timestamp.now
  return { home := ⟨home⟩, region, instant := now.toSecondsSinceUnixEpoch.val }

def run (words : List String) : IO UInt32 := do
  let env ← environment
  let disk ← match Settings.ofWords env.region words with
    | .ok settings => loadFor settings env
    | .error _ => pure { here := [] }
  let (exit, after) := execute env words disk
  after.journal.reverse.forM repeatChange
  IO.print exit.output
  exit.error.forM IO.eprint
  exit.advice.forM IO.eprint
  return exit.code.toUInt32

end CloudLedger.Program

def main (words : List String) : IO UInt32 := CloudLedger.Program.run words
