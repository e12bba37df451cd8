import CloudLedger.Fault
import CloudLedger.Files.Disk

/-!
# Sources of exports

The exports of a provider are listed one by one or found in a folder: then every file at any depth
whose extension is `csv` counts, in the order of the paths.
-/

namespace CloudLedger

open Files

/-- Where exports are taken from. -/
inductive Origin where
  | files (paths : List FilePath)
  | folder (path : FilePath)

/-- Where a provider's exports are taken from. -/
structure Source where
  provider : Provider
  origin : Origin

namespace Source

/-- Whether a file holds an export, by its extension in upper or lower case. -/
def isExport (path : FilePath) : Bool :=
  (path.extension?.map fun s ↦ s.toList.map Char.toLower) = some "csv".toList

/-- The names on the way from a folder down to a place within it, if it lies there. -/
def below? (folder place : Place) : Option (List String) :=
  if folder.isPrefixOf place then some (place.drop folder.length) else none

/-- The names on the way to every file at or below a place. -/
def filesBelow (disk : Disk) (top : Place) : List (List String) :=
  disk.entries.filterMap fun (place, entry) ↦
    match entry with
    | .file _ => below? top place
    | .folder => none

/-- The path that is reached from another one by some names. -/
def pathBelow (top : FilePath) (names : List String) : FilePath := names.foldl FilePath.join top

/-- Whether a list equals another one or comes before it: the first elements that differ decide, and
an end comes before any element. -/
def comesFirst {β : Type} [DecidableEq β] (before : β → β → Bool) : List β → List β → Bool
  | [], _ => true
  | _ :: _, [] => false
  | a :: as, b :: bs => if a = b then comesFirst before as bs else before a b

/-- Whether a name comes before another one, or equals it, by the numbers of their characters. -/
def nameLe (a b : String) : Bool :=
  comesFirst (fun c d ↦ c.toNat < d.toNat) a.toList b.toList

/-- Whether one way down comes before another one, or equals it. -/
def wayLe : List String → List String → Bool := comesFirst nameLe

/-- Whether a search comes by a file: every folder on the way down to it has to open by its path.  A
folder that does not is passed over, and nothing is said about it. -/
def isReached (disk : Disk) (top : FilePath) : List String → Bool
  | [] => true
  | name :: names => disk.opens top && isReached disk (top.join name) names

/-- The exports at or below a path, in the order of their paths. -/
def findExports (disk : Disk) (top : FilePath) : List FilePath :=
  match disk.find top, disk.locate top with
  | .ok _, .ok place =>
    let reached := (filesBelow disk place).filter (isReached disk top)
    ((reached.mergeSort wayLe).map (pathBelow top)).filter isExport
  | _, _ => []

/-- Read listed exports; each has to be there. -/
def readListed (disk : Disk) (provider : Provider) (paths : List FilePath) :
    Except Fault (List (List UInt8)) :=
  paths.mapM fun path ↦
    match disk.read path with
    | .ok bytes => .ok bytes
    | .error obstacle => .error (.fetch provider (.file path obstacle))

def contents (disk : Disk) (s : Source) : Except Fault (List (List UInt8)) :=
  match s.origin with
  | .files paths => readListed disk s.provider paths
  | .folder top =>
    if !disk.isFolder top then .error (.fetch s.provider (.noFolder top))
    else match findExports disk top with
      | [] => .error (.fetch s.provider (.noExports top))
      | paths => readListed disk s.provider paths

end Source

end CloudLedger
