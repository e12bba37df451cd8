import CloudLedger.Proofs.Folders
import CloudLedger.Proofs.StateFile.Replacing

/-!
# Where there is no state file

A save that fails may leave the folder of the state file behind, or a draft beside it, but no state
file where there was none.  Only the folder can turn a path around: one that goes through a folder
and back, like `x/..`, leads to nothing until the folder is made.
-/

namespace CloudLedger.StateFile

open Files

variable {path folder : FilePath} {reports : List (Report Float)} {d e : Disk} {o : Obstacle}
  {content : List UInt8}

/-- Whether a path that leads to nothing still does so once the folder that it lies in has been made
as far as it can be. -/
def Steady (path : FilePath) (d : Disk) : Prop :=
  d.read path = .error .missing →
    (DiskOp.leaves (makeParent path) d).read path = .error .missing

theorem steady_of_leaves (h : DiskOp.leaves (makeParent path) d = d) : Steady path d := by
  intro hmissing
  rw [h]
  exact hmissing

/-- Where the folder of a path is there, or the path names none, there is nothing to make. -/
theorem leaves_makeParent_of_isFolder
    (h : ∀ folder, path.parent? = some folder → folder.text = "" ∨ d.isFolder folder) :
    DiskOp.leaves (makeParent path) d = d := by
  rw [makeParent]
  cases hparent : path.parent? with
  | none => rfl
  | some folder =>
    apply DiskOp.leaves_of_ok
    exact (h folder hparent).elim DiskOp.makeFolders_of_empty DiskOp.makeFolders_of_isFolder

theorem isFolder_of_makeParent (h : (makeParent path).run d = .ok () e)
    (hparent : path.parent? = some folder) : folder.text = "" ∨ e.isFolder folder := by
  rw [makeParent, hparent] at h
  by_cases hempty : folder.text = ""
  · exact .inl hempty
  · exact .inr (DiskOp.isFolder_of_makeFolders hempty h)

theorem leaves_makeParent (path : FilePath) (d : Disk) :
    DiskOp.leaves (makeParent path) (DiskOp.leaves (makeParent path) d) =
      DiskOp.leaves (makeParent path) d := by
  rw [makeParent]
  cases path.parent? with
  | none => rfl
  | some folder => exact DiskOp.leaves_makeFolders folder d

/-- Where everything lies in a folder, a path that only leads down is steady: the folders that are
made lie above it. -/
theorem steady_of_leadDown (hconnected : d.IsConnected) (hdown : LeadDown path.names) :
    Steady path d := by
  intro hmissing
  rw [makeParent]
  cases hparent : path.parent? with
  | none => exact hmissing
  | some folder =>
    dsimp only
    have hcontinues := FilePath.continues_of_parent? hparent
    have hraises := Disk.raises_makeFoldersUpTo (folder.pieces.length + 1)
      (hdown.of_continues hcontinues) (le_refl (Disk.depth d.here folder)) rfl
    rcases hcontinues.last_ne_dot with hempty | hdot
    · rwa [DiskOp.leaves_of_ok (DiskOp.makeFolders_of_empty hempty)]
    · have hbelow : Disk.depth d.here folder < Disk.depth d.here path := by
        rw [Disk.depth_of_continues hcontinues]
        simp [further, hdot]
      obtain ⟨hnull, hnothing | ⟨hlong, hnowhere⟩⟩ := Disk.read_eq_missing_iff.mp hmissing
      · exact Disk.read_eq_missing_iff.mpr ⟨hnull, .inl hnothing⟩
      · refine Disk.read_eq_missing_iff.mpr ⟨hnull, .inr ⟨hlong, ?_⟩⟩
        rw [DiskOp.makeFolders, hraises.keeps.here_eq]
        exact hraises.endsNowhere hconnected hdown hbelow hnowhere

/-! ## Saves that fail -/

/-- A draft whose path is the one of the file can be moved there. -/
theorem fileName?_of_move_error (hwrite : (DiskOp.write (draftPath path) content).run d = .ok () e)
    (hmove : (DiskOp.move (draftPath path) path).run e = .error o e) :
    ∃ name, path.fileName? = some name := by
  cases hname : path.fileName? with
  | some name => exact ⟨name, rfl⟩
  | none =>
    have hsame : draftPath path = path := by rw [draftPath, FilePath.withExtension, hname]
    rw [hsame] at hwrite hmove
    obtain ⟨place, haccepts, -⟩ := DiskOp.write_eq_ok.mp hwrite
    obtain ⟨f, g, hwrite', hmove'⟩ := DiskOp.publishes_of_accepts content haccepts haccepts
    rw [hwrite] at hwrite'
    cases hwrite'
    cases hmove.symm.trans hmove'

/-- A draft does not change what is read from the path, and leaves the folders as they are. -/
theorem of_draft_left (hwrite : (DiskOp.write (draftPath path) content).run d = .ok () e)
    (hmove : (DiskOp.move (draftPath path) path).run e = .error o e) :
    e.read path = d.read path ∧ d.SameFolders e := by
  obtain ⟨name, hname⟩ := fileName?_of_move_error hwrite hmove
  obtain ⟨place, haccepts, rfl⟩ := DiskOp.write_eq_ok.mp hwrite
  exact ⟨Disk.read_put_withExtension hname (by decide) (by decide) haccepts content,
    (Disk.sameFolders_put content haccepts.2.2).noting _⟩

/-- A save that fails has made the folder as far as it can be made, and has changed nothing else
that matters to what is read from the path. -/
theorem of_replace_error (h : (replace path reports).run d = .error o e) :
    e.read path = (DiskOp.leaves (makeParent path) d).read path ∧
      DiskOp.leaves (makeParent path) e = e := by
  have hagain := leaves_makeParent path d
  rw [replace_run] at h
  split at h
  · rename_i hrun
    cases h
    rw [DiskOp.leaves_of_error hrun] at hagain ⊢
    exact ⟨rfl, hagain⟩
  · rename_i f hrun
    rw [DiskOp.leaves_of_ok hrun] at hagain ⊢
    split at h
    · rename_i hwrite
      cases h
      rw [DiskOp.eq_of_write_error hwrite]
      exact ⟨rfl, hagain⟩
    · rename_i g hwrite
      obtain rfl := DiskOp.eq_of_move_error h
      obtain ⟨hread, hsame⟩ := of_draft_left hwrite h
      refine ⟨hread, leaves_makeParent_of_isFolder fun folder hparent ↦ ?_⟩
      exact (isFolder_of_makeParent hrun hparent).imp_right
        (Disk.isFolder_of_keepsFolders hsame.keepsFolders)

theorem steady_of_replace_error (h : (replace path reports).run d = .error o e) : Steady path e :=
  steady_of_leaves (of_replace_error h).2

theorem read_missing_of_replace_error (hsteady : Steady path d)
    (hmissing : d.read path = .error .missing)
    (h : (replace path reports).run d = .error o e) : e.read path = .error .missing :=
  (of_replace_error h).1.trans (hsteady hmissing)

/-! ## A path that turns around -/

/-- A path that goes through a folder and back. -/
def turningPath : FilePath := ⟨"x/../state.json"⟩

/-- A file that would be found if the folder `x` were there, and a folder in the place of the
draft. -/
def turningDisk (content : List UInt8) : Disk where
  here := []
  entries := [(["state.json"], .file content), (["state.json.tmp"], .folder)]

/-- The store that is opened there. -/
def turningStore : StateFile := ⟨turningPath, ⟨[], List.nodup_nil⟩⟩

theorem read_turningDisk (content : List UInt8) :
    (turningDisk content).read turningPath = .error .missing := rfl

theorem load_turningDisk (content : List UInt8) :
    load turningPath (turningDisk content) = .ok turningStore := by
  rw [load, read_turningDisk]
  rfl

/-- A save that fails for the draft has made the folder, so the file is found from then on. -/
theorem save_turningDisk (content : List UInt8) (r : Report Float) :
    ∃ e, (Store.save [r]).run (turningStore, turningDisk content) =
        .error (.save (.file turningPath .isFolder)) (turningStore, e) ∧
      e.read turningPath = .ok content := by
  have hreplace : ∃ e, (replace turningPath (turningStore.history.add [r]).reports).run
      (turningDisk content) = .error .isFolder e ∧ e.read turningPath = .ok content :=
    ⟨_, rfl, rfl⟩
  obtain ⟨e, he, hread⟩ := hreplace
  have hnew : turningStore.history.additions [r] ≠ [] := List.cons_ne_nil _ _
  refine ⟨e, ?_, hread⟩
  rw [save_run (List.cons_ne_nil r []), if_neg hnew, show turningStore.path = turningPath from rfl,
    he]

example (content : List UInt8) : ¬ Steady turningPath (turningDisk content) := by
  intro hsteady
  have hmissing := hsteady (read_turningDisk content)
  have hread : (DiskOp.leaves (makeParent turningPath) (turningDisk content)).read turningPath =
      .ok content := rfl
  cases hread.symm.trans hmissing

end CloudLedger.StateFile
