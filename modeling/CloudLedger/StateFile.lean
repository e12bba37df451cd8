import CloudLedger.StateFile.Document
import CloudLedger.StateFile.Render
import CloudLedger.Store

/-!
# State files

A state file is a store that survives the program: a history together with the path that it is kept
at.  Saving writes the whole history to a temporary file beside it and then moves that file into
place, so that the path always holds one complete history.  Only when this has succeeded does the
new history count; if nothing is new, nothing is written.
-/

namespace CloudLedger

open Files

structure StateFile where
  path : FilePath
  history : History Float

namespace StateFile

/-- Open the state file at a path.  If there is none, the history is empty. -/
def load (path : FilePath) (disk : Disk) : Except Fault StateFile :=
  match disk.read path with
  | .ok bytes =>
    match read bytes with
    | .ok reports => .ok ⟨path, .ofReports reports⟩
    | .error cause => .error (.document cause)
  | .error .missing => .ok ⟨path, {}⟩
  | .error obstacle => .error (.file path obstacle)

def draftPath (path : FilePath) : FilePath := path.withExtension "json.tmp"

def makeParent (path : FilePath) : DiskOp Unit :=
  match path.parent? with
  | some folder => DiskOp.makeFolders folder
  | none => pure ()

/-- Put reports in the place of what a path holds. -/
def replace (path : FilePath) (reports : List (Report Float)) : DiskOp Unit := do
  makeParent path
  DiskOp.write (draftPath path) (render reports)
  DiskOp.move (draftPath path) path

instance : Store StateFile where
  lookup s := s.history.lookup
  save reports := do
    refuseEmpty reports
    let (s, _) ← get
    let (updated, inserted) := s.history.insertIgnore reports
    if 0 < inserted then
      onDisk (fun obstacle ↦ .save (.file s.path obstacle)) (replace s.path updated.reports)
    modify fun (s, disk) ↦ ({ s with history := updated }, disk)

end StateFile

end CloudLedger
