import CloudLedger.Archive
import CloudLedger.Proofs.Folders
import CloudLedger.Proofs.SameEntries
import CloudLedger.Proofs.Store

/-!
# Archiving again

Archiving does not touch the store.  Once a table has been written, nothing keeps it from being
written again, to the same path; and where it could not be written, it still cannot be.  Either way
nothing is different on the disk after writing it again, and all that is done is done at the places
of the table and of its draft.
-/

namespace CloudLedger

open Files

namespace Archive

variable {σ : Type} {s t : σ} {d e f : Disk} {folder written : FilePath} {period : Period}
  {reports : List (Report Float)}

theorem write_run (s : σ) (d : Disk) :
    (write folder period reports).run (s, d) = match (DiskOp.makeFolders folder).run d with
      | .error o e => .error (.file folder o) (s, e)
      | .ok _ e =>
        match (DiskOp.write (draftPath (path folder period)) (table reports)).run e with
        | .error o e => .error (.sheet o) (s, e)
        | .ok _ e =>
          match (DiskOp.move (draftPath (path folder period)) (path folder period)).run e with
          | .error o e => .error (.file (path folder period) o) (s, e)
          | .ok _ e => .ok (path folder period) (s, e) := by
  unfold write
  rw [EStateM.run_bind, onDisk_run]
  cases (DiskOp.makeFolders folder).run d with
  | error o e => rfl
  | ok _ e =>
    dsimp only
    rw [EStateM.run_bind, onDisk_run]
    cases (DiskOp.write (draftPath (path folder period)) (table reports)).run e with
    | error o e => rfl
    | ok _ e =>
      dsimp only
      rw [EStateM.run_bind, onDisk_run]
      cases (DiskOp.move (draftPath (path folder period)) (path folder period)).run e <;> rfl

/-- A table that is written is a draft, written where folders have been made and then moved. -/
theorem write_eq_ok (h : (write folder period reports).run (s, d) = .ok written (t, e)) :
    written = path folder period ∧ t = s ∧
      ∃ f g, (DiskOp.makeFolders folder).run d = .ok () f ∧
        (DiskOp.write (draftPath (path folder period)) (table reports)).run f = .ok () g ∧
        (DiskOp.move (draftPath (path folder period)) (path folder period)).run g = .ok () e := by
  rw [write_run] at h
  split at h
  · cases h
  · rename_i f hmake
    split at h
    · cases h
    · rename_i g hwrite
      split at h
      · cases h
      · rename_i hmove
        cases h
        exact ⟨rfl, rfl, f, g, hmake, hwrite, hmove⟩

/-- A table that cannot be written leaves folders behind, or the draft in one of them. -/
theorem write_eq_error {fault : Fault}
    (h : (write folder period reports).run (s, d) = .error fault (t, e)) :
    ∃ f, DiskOp.leaves (DiskOp.makeFolders folder) d = f ∧
      (e = f ∨
        (DiskOp.write (draftPath (path folder period)) (table reports)).run f = .ok () e) := by
  rw [write_run] at h
  split at h
  · rename_i hmake
    cases h
    exact ⟨_, DiskOp.leaves_of_error hmake, .inl rfl⟩
  · rename_i f hmake
    refine ⟨f, DiskOp.leaves_of_ok hmake, ?_⟩
    split at h
    · rename_i hwrite
      cases h
      exact .inl (DiskOp.eq_of_write_error hwrite)
    · rename_i g hwrite
      split at h
      · rename_i hmove
        cases h
        rw [DiskOp.eq_of_move_error hmove]
        exact .inr hwrite
      · cases h

/-- A table that is written is read back from its path. -/
theorem read_eq_table (h : (write folder period reports).run (s, d) = .ok written (t, e)) :
    e.read (path folder period) = .ok (table reports) := by
  obtain ⟨-, -, f, g, -, hwrite, hmove⟩ := write_eq_ok h
  exact (DiskOp.publishes hwrite hmove).read_eq

/-! ## Writing a table again -/

/-- What writing a table again leaves behind: the same entries, and changes at no other places than
those of the table and of its draft. -/
structure Repeats (folder : FilePath) (period : Period) (d e : Disk) : Prop where
  sameEntries : d.SameEntries e
  journal : ∃ changes, e.journal = changes ++ d.journal ∧
    ∀ change ∈ changes, ∀ place ∈ change.places,
      d.locate (path folder period) = .ok place ∨
        d.locate (draftPath (path folder period)) = .ok place

theorem Repeats.refl (folder : FilePath) (period : Period) (d : Disk) :
    Repeats folder period d d :=
  ⟨.refl d, [], rfl, by simp⟩

theorem makeFolders_again (hmake : (DiskOp.makeFolders folder).run d = .ok () e)
    (hsame : e.SameFolders f) : (DiskOp.makeFolders folder).run f = .ok () f := by
  by_cases hempty : folder.text = ""
  · exact DiskOp.makeFolders_of_empty hempty
  · exact DiskOp.makeFolders_of_isFolder (Disk.isFolder_of_keepsFolders hsame.keepsFolders
      (DiskOp.isFolder_of_makeFolders hempty hmake))

/-- A table that has been written can be written again. -/
theorem write_again (h : (write folder period reports).run (s, d) = .ok written (t, e)) (u : σ) :
    ∃ f, (write folder period reports).run (u, e) = .ok written (u, f) ∧
      Repeats folder period e f := by
  obtain ⟨rfl, -, f, g, hmake, hwrite, hmove⟩ := write_eq_ok h
  obtain ⟨g', f', hwrite', hmove', hsame, source, target, hsource, htarget, hjournal⟩ :=
    DiskOp.write_move_again hwrite hmove
  have hmake' := makeFolders_again hmake (DiskOp.publishes hwrite hmove).sameFolders
  refine ⟨f', ?_, hsame, [.moved source target, .wrote source (table reports)], hjournal, ?_⟩
  · simp only [write_run, hmake', hwrite', hmove']
  · simp [Change.places, hsource, htarget]

/-- A table that could not be written cannot be written by trying again. -/
theorem write_again_of_error {fault : Fault}
    (h : (write folder period reports).run (s, d) = .error fault (t, e)) (u : σ) :
    ∃ cause f, (write folder period reports).run (u, e) = .error cause (u, f) ∧
      Repeats folder period e f := by
  rw [write_run] at h
  split at h
  · rename_i hmake
    cases h
    obtain ⟨-, o, hagain⟩ := DiskOp.makeFoldersUpTo_of_error hmake
    refine ⟨.file folder o, e, ?_, .refl folder period e⟩
    rw [write_run, DiskOp.makeFolders, hagain]
  · rename_i f hmake
    split at h
    · rename_i o _ hwrite
      cases h
      obtain rfl := DiskOp.eq_of_write_error hwrite
      refine ⟨.sheet o, e, ?_, .refl folder period e⟩
      rw [write_run, DiskOp.makeFolders, DiskOp.makeFoldersUpTo_of_ok hmake]
      dsimp only
      rw [hwrite]
    · rename_i g hwrite
      split at h
      · rename_i o _ hmove
        cases h
        obtain rfl := DiskOp.eq_of_move_error hmove
        obtain ⟨f', hwrite', hmove', hsame, source, hsource, hjournal⟩ :=
          DiskOp.write_move_error_again hwrite hmove
        obtain ⟨place, hplace, rfl⟩ := DiskOp.write_eq_ok.mp hwrite
        have hmake' := makeFolders_again hmake
          ((Disk.sameFolders_put (table reports) hplace.2.2).noting (.wrote place (table reports)))
        refine ⟨.file (path folder period) o, f', ?_, hsame, [.wrote source (table reports)],
          hjournal, ?_⟩
        · simp only [write_run, hmake', hwrite', hmove']
        · simp [Change.places, hsource]
      · cases h

/-- Whatever comes of writing a table, the store stays as it is. -/
theorem write_store (s : σ) (d : Disk) :
    (∃ written e, (write folder period reports).run (s, d) = .ok written (s, e)) ∨
      ∃ fault e, (write folder period reports).run (s, d) = .error fault (s, e) := by
  rw [write_run]
  cases (DiskOp.makeFolders folder).run d with
  | error o d₁ => exact .inr ⟨_, _, rfl⟩
  | ok _ d₁ =>
    dsimp only
    cases (DiskOp.write (draftPath (path folder period)) (table reports)).run d₁ with
    | error o d₂ => exact .inr ⟨_, _, rfl⟩
    | ok _ d₂ =>
      dsimp only
      cases (DiskOp.move (draftPath (path folder period)) (path folder period)).run d₂ with
      | error o d₃ => exact .inr ⟨_, _, rfl⟩
      | ok _ d₃ => exact .inl ⟨_, _, rfl⟩

/-- Writing a table does not depend on the store. -/
theorem write_congr {τ : Type} (s : σ) (s' : τ) (d : Disk) :
    (write folder period reports).run (s', d) =
      match (write folder period reports).run (s, d) with
      | .ok written (_, e) => .ok written (s', e)
      | .error fault (_, e) => .error fault (s', e) := by
  rw [write_run, write_run]
  cases (DiskOp.makeFolders folder).run d with
  | error o d₁ => rfl
  | ok _ d₁ =>
    dsimp only
    cases (DiskOp.write (draftPath (path folder period)) (table reports)).run d₁ with
    | error o d₂ => rfl
    | ok _ d₂ =>
      dsimp only
      cases (DiskOp.move (draftPath (path folder period)) (path folder period)).run d₂ <;> rfl

end Archive

end CloudLedger
