import CloudLedger.Files.Obstacle
import CloudLedger.Files.Path

/-!
# The disk

The files and folders that a run can see, as a finite map from places to entries.  A `DiskOp` reads
and changes it, and may end early at an obstacle; what it had changed by then stays changed.  The
changes are also kept as a journal, in order, so that they can be repeated elsewhere.
-/

namespace CloudLedger.Files

/-- A place in the tree of folders: the names on the way from the root. -/
abbrev Place := List String

inductive Entry where
  | folder
  | file (content : List UInt8)
deriving DecidableEq

inductive Change where
  | madeFolder (place : Place)
  | wrote (place : Place) (content : List UInt8)
  | moved (source target : Place)
  | removed (place : Place)
deriving DecidableEq

/-- Files and folders, with at most one entry for a place. -/
structure Disk where
  /-- The folder that relative paths start from. -/
  here : Place
  entries : List (Place × Entry) := []
  /-- The changes made so far, the latest first. -/
  journal : List Change := []
  /-- The folders that may not be listed.  What they hold can still be reached by its path. -/
  unlisted : List Place := []
  distinct : (entries.map Prod.fst).Nodup := by simp

/-- An operation on the disk that an obstacle may end. -/
abbrev DiskOp := EStateM Obstacle Disk

namespace Disk

/-- The entry at a place.  The root and the folder that paths start from are always there. -/
def at? (d : Disk) (place : Place) : Option Entry :=
  if place.isPrefixOf d.here then some .folder
  else (d.entries.find? fun entry ↦ entry.1 = place).map Prod.snd

/-- Leave out the entries at some places. -/
def without (d : Disk) (dropped : Place → Bool) : Disk where
  here := d.here
  entries := d.entries.filter fun entry ↦ !dropped entry.1
  journal := d.journal
  unlisted := d.unlisted.filter fun place ↦ !dropped place
  distinct := (List.filter_sublist.map _).nodup d.distinct

/-- Set the entry at a place. -/
def put (d : Disk) (place : Place) (entry : Entry) : Disk where
  here := d.here
  entries := (place, entry) :: (d.without (· = place)).entries
  journal := d.journal
  unlisted := (d.without (· = place)).unlisted
  distinct := by
    have h := (d.without (· = place)).distinct
    simp only [List.map_cons, List.nodup_cons]
    refine ⟨?_, h⟩
    simp [without]

def noting (d : Disk) (change : Change) : Disk := { d with journal := change :: d.journal }

/-- Take one step along a path; what is left behind has to be a folder. -/
def enter (d : Disk) (place : Place) (name : String) : Except Obstacle Place :=
  match d.at? place with
  | none => .error .missing
  | some (.file _) => .error .notFolder
  | some .folder =>
    if name = "." then .ok place
    else if name = ".." then .ok place.dropLast
    else if longestName < size name then .error .tooLong
    else .ok (place ++ [name])

/-- The place that a path leads to, whether or not there is an entry. -/
def locate (d : Disk) (p : FilePath) : Except Obstacle Place :=
  if p.holdsNull then .error .holdsNull
  else if p.text = "" then .error .missing
  else if longestPath < size p.text then .error .tooLong
  else p.names.foldlM d.enter (if p.isAbsolute then [] else d.here)

/-- The places that a path passes through, as long as they are folders. -/
def waypoints (d : Disk) (p : FilePath) : List Place :=
  let step (place : Place) (name : String) : Place :=
    if name = "." then place else if name = ".." then place.dropLast else place ++ [name]
  let start := if p.isAbsolute then [] else d.here
  (List.range (p.names.length + 1)).map fun n ↦ (p.names.take n).foldl step start

/-- The entry that a path leads to. -/
def find (d : Disk) (p : FilePath) : Except Obstacle Entry := do
  match d.at? (← d.locate p) with
  | none => .error .missing
  | some .folder => .ok .folder
  | some (.file content) => if p.endsInSlash then .error .notFolder else .ok (.file content)

def isFolder (d : Disk) (p : FilePath) : Bool := (d.find p).toOption = some .folder

/-- Whether a path leads to a folder that may be listed. -/
def opens (d : Disk) (p : FilePath) : Bool :=
  match d.locate p with
  | .ok place => d.at? place = some .folder && place ∉ d.unlisted
  | .error _ => false

def read (d : Disk) (p : FilePath) : Except Obstacle (List UInt8) := do
  match ← d.find p with
  | .folder => .error .isFolder
  | .file content => .ok content

end Disk

namespace DiskOp

/-- Look at the disk without changing it. -/
def look {α : Type} (f : Disk → Except Obstacle α) : DiskOp α := do
  match f (← get) with
  | .ok a => pure a
  | .error o => throw o

/-- Write a file, in place of the one that is there. -/
def write (p : FilePath) (content : List UInt8) : DiskOp Unit := do
  let place ← look (·.locate p)
  if p.endsInSlash then throw .isFolder
  match (← get).at? place with
  | some .folder => throw .isFolder
  | _ => modify fun d ↦ (d.put place (.file content)).noting (.wrote place content)

def makeFolder (p : FilePath) : DiskOp Unit := do
  let place ← look (·.locate p)
  match (← get).at? place with
  | some _ => throw .occupied
  | none => modify fun d ↦ (d.put place .folder).noting (.madeFolder place)

/-- Make a folder unless it is there; any other obstacle is one. -/
def ensureFolder (p : FilePath) : DiskOp Unit := do
  try makeFolder p
  catch o => if (← get).isFolder p then pure () else throw o

/-- Make a folder and those above it, given how many steps up may be needed. -/
def makeFoldersUpTo (p : FilePath) : Nat → DiskOp Unit
  | 0 => pure ()
  | steps + 1 =>
    if p.text = "" then pure ()
    else do
      try ensureFolder p
      catch o =>
        if o ≠ .missing then throw o
        match p.parent? with
        | none => throw o
        | some folder =>
          makeFoldersUpTo folder steps
          ensureFolder p

/-- Make a folder and those above it.  A path has no more folders above it than pieces. -/
def makeFolders (p : FilePath) : DiskOp Unit := makeFoldersUpTo p (p.pieces.length + 1)

/-- Move a file to a path, in place of the file that is there. -/
def move (p q : FilePath) : DiskOp Unit := do
  let source ← look (·.locate p)
  let content ← look (·.read p)
  let target ← look (·.locate q)
  if q.endsInSlash then throw .notFolder
  match (← get).at? target with
  | some .folder => throw .isFolder
  | _ => modify fun d ↦
    ((d.without (· = source)).put target (.file content)).noting (.moved source target)

/-- Remove a file, or a folder with all that it holds. -/
def remove (p : FilePath) : DiskOp Unit := do
  let place ← look (·.locate p)
  match (← get).at? place with
  | none => throw .missing
  | some _ => modify fun d ↦ (d.without (place.isPrefixOf ·)).noting (.removed place)

end DiskOp

end CloudLedger.Files
