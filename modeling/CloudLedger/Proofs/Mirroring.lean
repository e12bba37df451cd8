import CloudLedger.Proofs.Reopening
import CloudLedger.Proofs.StateFile.Absence

/-!
# A store and its file

As long as all figures survive being written and read, a state file and the history that was read
from it or saved to it hold the same reports.  A save that finds something new writes all of them; a
save that finds nothing new, or fails, leaves both as they are.  There is one condition.  A save
that fails may have made the folder that the path lies in, and this must not change what a path that
led to nothing leads to.  It does not, unless the path turns around on its way or has a name that is
too long.
-/

namespace CloudLedger.StateFile

open Files

variable {path : FilePath} {met : List Disk} {s t : StateFile} {d e : Disk} {r : Report Float}
  {reports : List (Report Float)} {cause : Fault}

/-! ## Opening -/

theorem path_of_load (h : load path d = .ok s) : s.path = path := by
  rw [load] at h
  split at h
  · split at h
    · cases h
      rfl
    · cases h
  · cases h
    rfl
  · cases h

/-- What can be opened holds something or is missing. -/
theorem read_of_load (h : load path d = .ok s) :
    (∃ content, d.read path = .ok content) ∨ d.read path = .error .missing := by
  rw [load] at h
  split at h
  · rename_i content hread
    exact .inl ⟨content, hread⟩
  · rename_i hread
    exact .inr hread
  · cases h

theorem load_congr (h : e.read path = d.read path) : load path e = load path d := by
  rw [load, load, h]

theorem rereadReport_of_survive (h : r.measures.Survive) : rereadReport r = .ok r :=
  rereadReport_eq_ok.mpr ⟨_, _, h.1, h.2, rfl⟩

/-- What was written is opened again as it was if all figures survive. -/
theorem load_of_survive (h : Written s d)
    (hsurvive : ∀ r ∈ s.history.reports, r.measures.Survive) : load s.path d = .ok s := by
  have hreread : s.history.reports.mapM rereadReport = .ok s.history.reports :=
    mapM_eq_ok.mpr (List.forall₂_same.mpr fun r hr ↦ rereadReport_of_survive (hsurvive r hr))
  have hhistory : History.ofReports s.history.reports = s.history :=
    History.ext (History.ofReports_eq s.history.distinct)
  rw [load_of_written h, hreread]
  simp only [hhistory]

/-! ## Steps -/

/-- Whether opening a path gives a store as it stands, and would do so after a save that fails. -/
structure Mirrors (path : FilePath) (s : StateFile) (d : Disk) : Prop where
  load_eq : load path d = .ok s
  survive : ∀ r ∈ s.history.reports, r.measures.Survive
  steady : Steady path d

theorem Mirrors.save_ok (h : Mirrors path s d) (hsurvive : ∀ r ∈ reports, r.measures.Survive)
    (hsave : (Store.save reports).run (s, d) = .ok () (t, e)) : Mirrors path t e := by
  by_cases hnone : s.history.additions reports = []
  · obtain ⟨rfl, rfl⟩ := eq_of_save hsave hnone
    exact h
  · have hwritten := written_of_save hsave hnone
    obtain ⟨-, rfl, -⟩ := save_eq_ok hsave
    obtain rfl := path_of_load h.load_eq
    have hall : ∀ r ∈ (s.history.add reports).reports, r.measures.Survive := fun r hr ↦
      (History.mem_or_mem_of_mem_add hr).elim (h.survive r) (hsurvive r)
    refine ⟨load_of_survive hwritten hall, hall, fun hmissing ↦ ?_⟩
    cases hwritten.symm.trans hmissing

theorem Mirrors.save_error (h : Mirrors path s d)
    (hsave : (Store.save reports).run (s, d) = .error cause (t, e)) : Mirrors path t e := by
  obtain ⟨rfl, rfl | ⟨o, hreplace⟩⟩ := save_eq_error hsave
  · exact h
  · obtain rfl := path_of_load h.load_eq
    have hread : e.read t.path = d.read t.path := by
      rcases read_of_load h.load_eq with ⟨content, hread⟩ | hmissing
      · rw [hread, read_of_replace_error hread hreplace]
      · rw [hmissing, read_missing_of_replace_error h.steady hmissing hreplace]
    exact ⟨(load_congr hread).trans h.load_eq, h.survive, steady_of_replace_error hreplace⟩

/-! ## Runs -/

/-- What can become of a state file that is opened, saved to and opened again while nothing else
changes what its path leads to.  Saves may fail, and the disk may change elsewhere.  The list is of
the disks that the state file is found on, when it is opened at first and after each such change. -/
inductive Used (path : FilePath) : List Disk → StateFile → Disk → Prop where
  | opened {s : StateFile} {d : Disk} :
    load path d = .ok s → (∀ r ∈ s.history.reports, r.measures.Survive) → Used path [d] s d
  | saved {met : List Disk} {s t : StateFile} {d e : Disk} {reports : List (Report Float)} :
    Used path met s d → (∀ r ∈ reports, r.measures.Survive) →
      (Store.save reports).run (s, d) = .ok () (t, e) → Used path met t e
  | refused {met : List Disk} {s t : StateFile} {d e : Disk} {reports : List (Report Float)}
    {cause : Fault} :
    Used path met s d → (Store.save reports).run (s, d) = .error cause (t, e) → Used path met t e
  | reopened {met : List Disk} {s t : StateFile} {d : Disk} :
    Used path met s d → load path d = .ok t → Used path met t d
  | elsewhere {met : List Disk} {s : StateFile} {d e : Disk} :
    Used path met s d → e.read path = d.read path → Used path (e :: met) s e

theorem Used.mirrors (h : Used path met s d) (hsteady : ∀ e ∈ met, Steady path e) :
    Mirrors path s d := by
  induction h with
  | opened hload hsurvive => exact ⟨hload, hsurvive, hsteady _ (List.mem_singleton_self _)⟩
  | saved _ hsurvive hsave ih => exact (ih hsteady).save_ok hsurvive hsave
  | refused _ hsave ih => exact (ih hsteady).save_error hsave
  | reopened _ hload ih =>
    obtain rfl := Except.ok.inj ((ih hsteady).load_eq.symm.trans hload)
    exact ih hsteady
  | elsewhere _ hread ih =>
    obtain ⟨hnew, hold⟩ := List.forall_mem_cons.mp hsteady
    exact ⟨(load_congr hread).trans (ih hold).load_eq, (ih hold).survive, hnew⟩

/-- Open the state file again and go on with what it holds. -/
def reopen : EStateM Fault (StateFile × Disk) Unit := fun (s, d) ↦
  match load s.path d with
  | .ok t => .ok () (t, d)
  | .error cause => .error cause (s, d)

/-- At any time, opening a state file gives its store as it stands, so that nothing that is done
later can tell whether the state file has been opened again.  On each disk that the state file is
found on, the path has to be steady; one that only leads down is. -/
theorem load_of_used (h : Used path met s d)
    (hsteady : ∀ e ∈ met, Steady path e ∨ e.IsConnected ∧ LeadDown path.names) :
    load path d = .ok s ∧
      ∀ {α : Type} (later : EStateM Fault (StateFile × Disk) α),
        (do reopen; later).run (s, d) = later.run (s, d) := by
  have hmirrors : Mirrors path s d := h.mirrors fun e he ↦
    (hsteady e he).elim id fun ⟨hconnected, hdown⟩ ↦ steady_of_leadDown hconnected hdown
  have hload : load path d = .ok s := hmirrors.load_eq
  refine ⟨hload, fun later ↦ ?_⟩
  have hreopen : reopen.run (s, d) = .ok () (s, d) := by
    change (match load s.path d with
      | .ok t => EStateM.Result.ok () (t, d)
      | .error cause => .error cause (s, d)) = _
    rw [path_of_load hload, hload]
  rw [EStateM.run_bind, hreopen]

section Quotes

/-- A report of quotes, backslashes, line breaks and characters of more than one byte. -/
def quotedReport : Report Float :=
  .derived ⟨.azure, "\"1\"", "C:\\disk", "Zürich\n"⟩ "☂\x00" ⟨29, 2, 2016⟩ "1 h" ⟨0.1, 19.99⟩

theorem quotedReport_survives : ∀ r ∈ [quotedReport], r.measures.Survive := by
  rw [List.forall_mem_singleton]
  constructor <;> decide +kernel

/-- A save of nothing fails, and what is saved then is there when the state file is opened. -/
theorem load_of_used_quotes :
    ∃ t e, (Store.save [quotedReport]).run (emptyStore, emptyDisk) = .ok () (t, e) ∧
      t.history.reports = [quotedReport] ∧ load ⟨"state.json"⟩ e = .ok t := by
  have hconnected : emptyDisk.IsConnected := fun place name _ ↦ by simp [emptyDisk, Disk.at?]
  have hdown : LeadDown (⟨"state.json"⟩ : FilePath).names := by
    rw [LeadDown]
    decide +kernel
  have hempty : Used ⟨"state.json"⟩ [emptyDisk] emptyStore emptyDisk :=
    .opened rfl (by simp [emptyStore])
  have hrefused : (Store.save ([] : List (Report Float))).run (emptyStore, emptyDisk) =
      .error (.save .nothingToSave) (emptyStore, emptyDisk) := rfl
  obtain ⟨e, hsave⟩ := save_first quotedReport
  have hsaved : Used ⟨"state.json"⟩ _ _ e :=
    (hempty.refused hrefused).saved quotedReport_survives hsave
  have hsteady : ∀ d ∈ [emptyDisk], Steady ⟨"state.json"⟩ d ∨
      d.IsConnected ∧ LeadDown (⟨"state.json"⟩ : FilePath).names :=
    List.forall_mem_singleton.mpr (.inr ⟨hconnected, hdown⟩)
  exact ⟨_, e, hsave, rfl, (load_of_used hsaved hsteady).1⟩

/-- A store and its file drift apart if the path turns around: a save that fails makes the folder on
the way, and now the path leads to a file.  And a state file that is missing cannot be opened any
more once a file has taken the place of its folder. -/
theorem exists_save_error_load_ne :
    (∃ (e : Disk) (t : StateFile),
      load turningPath (turningDisk (render [quotedReport])) = .ok turningStore ∧
      (Store.save [quotedReport]).run (turningStore, turningDisk (render [quotedReport])) =
        .error (.save (.file turningPath .isFolder)) (turningStore, e) ∧
      turningStore.history.reports = [] ∧
      load turningPath e = .ok t ∧ t.history.reports = [quotedReport]) ∧
    ∃ (s : StateFile) (e : Disk) (cause : Fault),
      load ⟨"state/reports.json"⟩ emptyDisk = .ok s ∧
      (∀ place, place ≠ ["state"] → e.at? place = emptyDisk.at? place) ∧
      (Store.save [quotedReport]).run (s, e) = .error cause (s, e) ∧
      load ⟨"state/reports.json"⟩ e = .error (.file ⟨"state/reports.json"⟩ .notFolder) := by
  constructor
  · obtain ⟨e, hsave, hread⟩ := save_turningDisk (render [quotedReport]) quotedReport
    have hheld : (History.ofReports [quotedReport]).reports = [quotedReport] := rfl
    have hwritten : Written ⟨turningPath, .ofReports [quotedReport]⟩ e := by
      rw [Written, hheld, hread]
    have hload := load_of_survive hwritten (hheld ▸ quotedReport_survives)
    exact ⟨e, _, load_turningDisk _, hsave, rfl, hload, hheld⟩
  · have hopened : load ⟨"state/reports.json"⟩ emptyDisk = .ok ⟨⟨"state/reports.json"⟩, {}⟩ := rfl
    refine ⟨_, emptyDisk.put ["state"] (.file []), _, hopened, fun place hne ↦ ?_, rfl, rfl⟩
    exact Disk.at?_put_of_ne hne _

end Quotes

end CloudLedger.StateFile
