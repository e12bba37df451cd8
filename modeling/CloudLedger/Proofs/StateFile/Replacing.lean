import CloudLedger.Proofs.StateFile.Documents
import CloudLedger.Proofs.Store

/-!
# What a state file holds

A save that writes leaves the whole history, as it is written, at the path of the state file.  A
save that fails leaves what was there: folders may have been made and a draft may have been written,
but a draft that lies beside a file can always be moved into its place.
-/

namespace CloudLedger.StateFile

open Files

variable {path : FilePath} {reports : List (Report Float)} {d e : Disk} {o : Obstacle}

/-! ## Replacing a file -/

theorem replace_run (path : FilePath) (reports : List (Report Float)) (d : Disk) :
    (replace path reports).run d = match (makeParent path).run d with
      | .error o e => .error o e
      | .ok _ e =>
        match (DiskOp.write (draftPath path) (render reports)).run e with
        | .error o f => .error o f
        | .ok _ f => (DiskOp.move (draftPath path) path).run f := by
  rw [replace, EStateM.run_bind]
  cases (makeParent path).run d with
  | error o e => rfl
  | ok _ e =>
    dsimp only
    rw [EStateM.run_bind]
    cases (DiskOp.write (draftPath path) (render reports)).run e <;> rfl

theorem extends_makeParent (path : FilePath) (d : Disk) :
    d.Extends (DiskOp.leaves (makeParent path) d) := by
  rw [makeParent]
  cases path.parent? with
  | none => exact .refl d
  | some folder => exact DiskOp.extends_makeFoldersUpTo _ folder d

/-- Where reports have been put, they are read. -/
theorem read_of_replace (h : (replace path reports).run d = .ok () e) :
    e.read path = .ok (render reports) := by
  rw [replace_run] at h
  split at h
  · cases h
  · split at h
    · cases h
    · rename_i hwrite
      exact (DiskOp.publishes hwrite h).read_eq

/-- Where reports could not be put, what was read before is still read. -/
theorem read_of_replace_error {content : List UInt8} (hread : d.read path = .ok content)
    (h : (replace path reports).run d = .error o e) : e.read path = .ok content := by
  have hmade := extends_makeParent path d
  rw [replace_run] at h
  split at h
  · rename_i hrun
    rw [DiskOp.leaves_of_error hrun] at hmade
    cases h
    exact Disk.read_of_extends hmade hread
  · rename_i f hrun
    rw [DiskOp.leaves_of_ok hrun] at hmade
    have hf : f.read path = .ok content := Disk.read_of_extends hmade hread
    split at h
    · rename_i hwrite
      cases h
      rw [DiskOp.eq_of_write_error hwrite]
      exact hf
    · rename_i g hwrite
      -- where a file is read there is room for it
      obtain ⟨target, htarget, -⟩ := Disk.accepts_of_read hf
      obtain ⟨source, hsource, -⟩ := DiskOp.write_eq_ok.mp hwrite
      obtain ⟨g', moved, hwrite', hmove⟩ :=
        DiskOp.publishes_of_accepts (render reports) hsource htarget
      rw [hwrite] at hwrite'
      cases hwrite'
      rw [hmove] at h
      cases h

/-! ## Saving -/

variable {s t : StateFile} {cause : Fault}

/-- Whether the path holds the history as it is written. -/
def Written (s : StateFile) (d : Disk) : Prop := d.read s.path = .ok (render s.history.reports)

theorem save_eq_ok (h : (Store.save reports).run (s, d) = .ok () (t, e)) :
    reports ≠ [] ∧ t = { s with history := s.history.add reports } ∧
      if s.history.additions reports = [] then e = d
      else (replace s.path t.history.reports).run d = .ok () e := by
  by_cases hne : reports = []
  · subst hne
    cases h
  · refine ⟨hne, ?_⟩
    rw [save_run hne] at h
    split_ifs at h with hnone
    · cases h
      exact ⟨rfl, (if_pos hnone).mpr rfl⟩
    · split at h
      · rename_i hreplace
        cases h
        exact ⟨rfl, (if_neg hnone).mpr hreplace⟩
      · cases h

theorem save_eq_error (h : (Store.save reports).run (s, d) = .error cause (t, e)) :
    t = s ∧ (e = d ∨ ∃ o, (replace s.path (s.history.add reports).reports).run d = .error o e) := by
  by_cases hne : reports = []
  · subst hne
    cases h
    exact ⟨rfl, .inl rfl⟩
  · rw [save_run hne] at h
    split_ifs at h with hnone
    split at h
    · cases h
    · rename_i o f hreplace
      cases h
      exact ⟨rfl, .inr ⟨o, hreplace⟩⟩

/-- A save that finds nothing new changes nothing. -/
theorem eq_of_save (h : (Store.save reports).run (s, d) = .ok () (t, e))
    (hnone : s.history.additions reports = []) : t = s ∧ e = d := by
  obtain ⟨-, ht, he⟩ := save_eq_ok h
  rw [if_pos hnone] at he
  rw [History.add_eq_self (History.additions_eq_nil.mp hnone)] at ht
  exact ⟨ht, he⟩

/-- A save that finds something new writes. -/
theorem written_of_save (h : (Store.save reports).run (s, d) = .ok () (t, e))
    (hnew : s.history.additions reports ≠ []) : Written t e := by
  obtain ⟨-, ht, he⟩ := save_eq_ok h
  rw [if_neg hnew] at he
  have hpath : t.path = s.path := ht ▸ rfl
  rw [Written, hpath]
  exact read_of_replace he

theorem written_of_save_error (h : (Store.save reports).run (s, d) = .error cause (t, e))
    (hwritten : Written s d) : Written t e := by
  obtain ⟨rfl, rfl | ⟨o, hreplace⟩⟩ := save_eq_error h
  · exact hwritten
  · exact read_of_replace_error hwritten hreplace

/-! ## State files that grow -/

/-- What can become of a state file that is opened where there is none and saved to: saves may fail,
and the disk may change elsewhere. -/
inductive Grown (fed : List (Report Float) → Prop) (path : FilePath) : StateFile → Disk → Prop where
  | opened {s : StateFile} {d : Disk} :
    d.read path = .error .missing → load path d = .ok s → Grown fed path s d
  | saved {s t : StateFile} {d e : Disk} {reports : List (Report Float)} :
    Grown fed path s d → fed reports → (Store.save reports).run (s, d) = .ok () (t, e) →
      Grown fed path t e
  | refused {s t : StateFile} {d e : Disk} {reports : List (Report Float)} {cause : Fault} :
    Grown fed path s d → fed reports → (Store.save reports).run (s, d) = .error cause (t, e) →
      Grown fed path t e
  | elsewhere {s : StateFile} {d e : Disk} :
    Grown fed path s d → e.read path = d.read path → Grown fed path s e

variable {fed : List (Report Float) → Prop}

theorem Grown.path_eq (h : Grown fed path s d) : s.path = path := by
  induction h with
  | opened hmissing hload =>
    rw [load, hmissing] at hload
    cases hload
    rfl
  | saved _ _ hsave ih =>
    obtain ⟨-, rfl, -⟩ := save_eq_ok hsave
    exact ih
  | refused _ _ hsave ih =>
    obtain ⟨rfl, -⟩ := save_eq_error hsave
    exact ih
  | elsewhere _ _ ih => exact ih

/-- Whatever a state file that grows has counted is written. -/
theorem Grown.written (h : Grown fed path s d) (hsome : s.history.reports ≠ []) : Written s d := by
  induction h with
  | opened hmissing hload =>
    rw [load, hmissing] at hload
    cases hload
    exact absurd rfl hsome
  | @saved s _ _ _ reports _ _ hsave ih =>
    by_cases hnone : s.history.additions reports = []
    · obtain ⟨rfl, rfl⟩ := eq_of_save hsave hnone
      exact ih hsome
    · exact written_of_save hsave hnone
  | refused _ _ hsave ih =>
    have hsame := (save_eq_error hsave).1
    exact written_of_save_error hsave (ih (hsame ▸ hsome))
  | elsewhere hgrown hread ih =>
    rw [Written, hgrown.path_eq, hread, ← hgrown.path_eq]
    exact ih hsome

/-- All that a state file that grows has counted was fed to it. -/
theorem Grown.exists_fed (h : Grown fed path s d) {r : Report Float} (hr : r ∈ s.history.reports) :
    ∃ reports, fed reports ∧ r ∈ reports := by
  induction h with
  | opened hmissing hload =>
    rw [load, hmissing] at hload
    cases hload
    cases hr
  | @saved _ _ _ _ reports _ hfed hsave ih =>
    obtain ⟨-, rfl, -⟩ := save_eq_ok hsave
    rcases History.mem_or_mem_of_mem_add hr with hold | hnew
    · exact ih hold
    · exact ⟨reports, hfed, hnew⟩
  | refused _ _ hsave ih => exact ih ((save_eq_error hsave).1 ▸ hr)
  | elsewhere _ _ ih => exact ih hr

theorem ne_nil_of_save (h : (Store.save reports).run (s, d) = .ok () (t, e)) :
    t.history.reports ≠ [] := by
  obtain ⟨hne, rfl, -⟩ := save_eq_ok h
  obtain ⟨r, hr⟩ := List.exists_mem_of_ne_nil _ hne
  have hid : r.id ∈ (s.history.add reports).ids := History.mem_ids_add hr
  intro hnil
  rw [History.ids, hnil] at hid
  cases hid

end CloudLedger.StateFile
