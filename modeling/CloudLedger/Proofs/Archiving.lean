import CloudLedger.Proofs.Above
import CloudLedger.Proofs.Archive
import CloudLedger.Proofs.ArchivePaths

/-!
# A folder of archived tables

Writing the table of a month makes folders, and otherwise changes the file of that month and its
draft only.  If it fails, the file is what it was, and what is left behind is at most a draft.

Whatever is written to a folder in whatever order, every file of a month therefore holds the last
table that was written for its month, or what it held before there was one.
-/

namespace CloudLedger.Archive

open Files

variable {σ : Type} {s t : σ} {d e f : Disk} {folder written : FilePath} {period other : Period}
  {reports : List (Report Float)} {fault : Fault} {content : List UInt8}

/-! ## One table -/

/-- Whether making a folder can make this one: it is the folder or lies above it. -/
def Leads (folder above : FilePath) : Prop := above = folder ∨ above.IsAbove folder

theorem addsFolders_makeFolders (folder : FilePath) (d : Disk) :
    d.AddsFolders (Leads folder) (DiskOp.leaves (DiskOp.makeFolders folder) d) := by
  apply Disk.addsFolders_makeFoldersUpTo
  · exact .inl rfl
  · rintro p above (rfl | hp) habove
    · exact .inr (.single habove)
    · exact .inr (.head habove hp)

/-- What is left behind when a table cannot be written: folders that were made, and perhaps the
draft. -/
structure Refused (folder : FilePath) (period : Period) (d e : Disk) : Prop where
  keeps : d.KeepsFolders e
  elsewhere : ∀ place, e.at? place = d.at? place ∨ d.MadeAmong (Leads folder) e place ∨
    place = d.aim (draftPath (path folder period)) ∧ ∃ content, e.at? place = some (.file content)

/-- What is left behind when a table has been written: folders that were made, the table and no
draft. -/
structure Replaced (folder : FilePath) (period : Period) (content : List UInt8) (d e : Disk) :
    Prop where
  keeps : d.KeepsFolders e
  read_eq : e.read (path folder period) = .ok content
  draft_gone : e.at? (d.aim (draftPath (path folder period))) = none
  elsewhere : ∀ place, e.at? place = d.at? place ∨ d.MadeAmong (Leads folder) e place ∨
    place = d.aim (draftPath (path folder period)) ∨ place = d.aim (path folder period)

theorem refused_of_write (h : (write folder period reports).run (s, d) = .error fault (t, e)) :
    Refused folder period d e := by
  have hadds := addsFolders_makeFolders folder d
  obtain ⟨f, hmake, rfl | hwrite⟩ := write_eq_error h
  · rw [hmake] at hadds
    exact ⟨hadds.keeps.keepsFolders, fun place ↦ (hadds.made place).imp_right .inl⟩
  · rw [hmake] at hadds
    obtain ⟨source, hsource, rfl⟩ := DiskOp.write_eq_ok.mp hwrite
    have hsame := (Disk.sameFolders_put (table reports) hsource.2.2).noting
      (.wrote source (table reports))
    have hdraft : source = d.aim (draftPath (path folder period)) := by
      rw [Disk.eq_aim_of_locate hsource.1, Disk.aim_congr hadds.keeps.here_eq]
    refine ⟨hadds.keeps.keepsFolders.trans hsame.keepsFolders, fun place ↦ ?_⟩
    by_cases hplace : place = source
    · refine .inr (.inr ⟨hplace.trans hdraft, table reports, ?_⟩)
      rw [hplace, Disk.at?_noting, Disk.at?_put_of_accepts _ hsource]
    · rcases hadds.made place with hkept | hmade
      · left
        rw [Disk.at?_noting, Disk.at?_put_of_ne hplace, hkept]
      · exact .inr (.inl (hmade.of_keepsFolders hsame.keepsFolders))

theorem replaced_of_write (h : (write folder period reports).run (s, d) = .ok written (t, e)) :
    Replaced folder period (table reports) d e := by
  have hread := read_eq_table h
  have hadds := addsFolders_makeFolders folder d
  obtain ⟨-, -, f, g, hmake, hwrite, hmove⟩ := write_eq_ok h
  rw [DiskOp.leaves_of_ok hmake] at hadds
  obtain ⟨source, target, hsource, htarget, hsame, hkept, hgone⟩ :=
    DiskOp.entries_of_write_move hwrite hmove
  have hdraft : source = d.aim (draftPath (path folder period)) := by
    rw [Disk.eq_aim_of_locate hsource.1, Disk.aim_congr hadds.keeps.here_eq]
  have hfile : target = d.aim (path folder period) := by
    rw [Disk.eq_aim_of_locate htarget.1, Disk.aim_congr hadds.keeps.here_eq]
  have hne : source ≠ target := by
    rw [hdraft, hfile]
    exact aim_draftPath_ne d folder period period
  refine ⟨hadds.keeps.keepsFolders.trans hsame.keepsFolders, hread, ?_, fun place ↦ ?_⟩
  · rw [← hdraft]
    exact hgone hne
  · by_cases hplace : place = source
    · exact .inr (.inr (.inl (hplace.trans hdraft)))
    · by_cases hplace' : place = target
      · exact .inr (.inr (.inr (hplace'.trans hfile)))
      · rcases hadds.made place with heq | hmade
        · exact .inl ((hkept place hplace hplace').trans heq)
        · exact .inr (.inl (hmade.of_keepsFolders hsame.keepsFolders))

/-! ## Other files -/

/-- A file stays where at most folders are made. -/
theorem keepsFile_of_made {p : FilePath} (hkeeps : d.KeepsFolders e)
    (h : e.at? (d.aim p) = d.at? (d.aim p) ∨ d.MadeAmong (Leads folder) e (d.aim p)) :
    Disk.KeepsFile p d e := by
  apply Disk.keepsFile_of_keepsFolders hkeeps
  rw [Disk.held, Disk.held, Disk.aim_congr hkeeps.here_eq]
  rcases h with hsame | ⟨hnone, hfolder, -⟩
  · rw [hsame]
  · rw [hnone, hfolder]

/-- A table that cannot be written leaves every table as it is, also the one of its month. -/
theorem Refused.keepsFile (h : Refused folder period d e) (other : Period) :
    Disk.KeepsFile (path folder other) d e := by
  apply keepsFile_of_made h.keeps
  rcases h.elsewhere (d.aim (path folder other)) with hsame | hmade | ⟨hdraft, -⟩
  · exact .inl hsame
  · exact .inr hmade
  · exact absurd hdraft.symm (aim_draftPath_ne d folder period other)

/-- A table that is written leaves the tables of other months as they are. -/
theorem Replaced.keepsFile (h : Replaced folder period content d e) (hperiod : period.HasMonth)
    (hother : other.HasMonth) (hne : ¬ period.sharesMonth other) :
    Disk.KeepsFile (path folder other) d e := by
  apply keepsFile_of_made h.keeps
  rcases h.elsewhere (d.aim (path folder other)) with hsame | hmade | hdraft | hfile
  · exact .inl hsame
  · exact .inr hmade
  · exact absurd hdraft.symm (aim_draftPath_ne d folder period other)
  · exact absurd ((aim_path_eq_iff hperiod hother).mp hfile.symm) hne

/-! ## Many tables -/

/-- A month and the reports that are written for it. -/
abbrev Sheet := Period × List (Report Float)

/-- A sequence of writes to a folder from one disk to another, with the sheets that were written,
the latest first.  In between anything may happen but to the tables of the folder. -/
inductive Series (folder : FilePath) (d : Disk) : List Sheet → Disk → Prop
  | start : Series folder d [] d
  | written {σ : Type} {s t : σ} {sheets : List Sheet} {e f : Disk} {file : FilePath}
      {period : Period} {reports : List (Report Float)} :
      Series folder d sheets e → period.HasMonth →
      (write folder period reports).run (s, e) = .ok file (t, f) →
      Series folder d ((period, reports) :: sheets) f
  | refused {σ : Type} {s t : σ} {sheets : List Sheet} {e f : Disk} {fault : Fault}
      {period : Period} {reports : List (Report Float)} :
      Series folder d sheets e → period.HasMonth →
      (write folder period reports).run (s, e) = .error fault (t, f) →
      Series folder d sheets f
  | elsewhere {sheets : List Sheet} {e f : Disk} :
      Series folder d sheets e →
      (∀ period : Period, period.HasMonth → Disk.KeepsFile (path folder period) e f) →
      Series folder d sheets f

/-- The reports that were written last for a month. -/
def latest? (sheets : List Sheet) (period : Period) : Option (List (Report Float)) :=
  (sheets.find? fun sheet ↦ sheet.1.sharesMonth period).map Prod.snd

variable {sheets : List Sheet}

theorem latest?_cons_of_sharesMonth (h : period.sharesMonth other) :
    latest? ((period, reports) :: sheets) other = some reports := by
  simp [latest?, h]

theorem latest?_cons_of_not_sharesMonth (h : ¬ period.sharesMonth other) :
    latest? ((period, reports) :: sheets) other = latest? sheets other := by
  simp [latest?, h]

/-- Whether the file of a month holds the table of the reports that were written last for it, and is
as it was if there are none. -/
def HoldsLatest (folder : FilePath) (sheets : List Sheet) (d e : Disk) (period : Period) : Prop :=
  match latest? sheets period with
  | some reports => e.read (path folder period) = .ok (table reports)
  | none => Disk.KeepsFile (path folder period) d e

theorem HoldsLatest.of_keepsFile (h : HoldsLatest folder sheets d e period)
    (hkeeps : Disk.KeepsFile (path folder period) e f) : HoldsLatest folder sheets d f period := by
  unfold HoldsLatest at h ⊢
  split
  · rename_i hlatest
    rw [hlatest] at h
    exact hkeeps.read_eq _ h
  · rename_i hlatest
    rw [hlatest] at h
    exact h.trans hkeeps

/-- Two periods of one month have the same file. -/
theorem path_congr (hperiod : period.HasMonth) (hother : other.HasMonth)
    (h : period.sharesMonth other) : path folder period = path folder other := by
  rw [path, path, (fileName_eq_iff hperiod hother).mpr h]

/-- Whatever is written to a folder in whatever order, and whatever fails, the file of each month
holds what was written last for it. -/
theorem holdsLatest_of_series (h : Series folder d sheets e) (hother : other.HasMonth) :
    HoldsLatest folder sheets d e other := by
  induction h with
  | start => exact Disk.KeepsFile.refl _ d
  | written _ hperiod hwrite ih =>
    have hreplaced := replaced_of_write hwrite
    rename_i period reports _
    by_cases hsame : period.sharesMonth other
    · rw [HoldsLatest, latest?_cons_of_sharesMonth hsame, ← path_congr hperiod hother hsame]
      exact hreplaced.read_eq
    · rw [HoldsLatest, latest?_cons_of_not_sharesMonth hsame]
      exact ih.of_keepsFile (hreplaced.keepsFile hperiod hother hsame)
  | refused _ _ hwrite ih => exact ih.of_keepsFile ((refused_of_write hwrite).keepsFile other)
  | elsewhere _ hkeeps ih => exact ih.of_keepsFile (hkeeps other hother)

/-- After any sequence of writes the file of each month holds the last table that was written for
it, or what it held before.  Each write that succeeds puts its table into the file and leaves no
draft, each that fails leaves at most its draft and folders, and neither changes the files of other
months. -/
theorem months_hold_latest (folder : FilePath) :
    (∀ {d e : Disk} {sheets : List Sheet}, Series folder d sheets e →
      ∀ period : Period, period.HasMonth → HoldsLatest folder sheets d e period) ∧
    ∀ {σ : Type} (s : σ) (d : Disk) (period : Period) (reports : List (Report Float)),
      period.HasMonth →
      (∀ written t e, (write folder period reports).run (s, d) = .ok written (t, e) →
        written = path folder period ∧ Replaced folder period (table reports) d e ∧
        ∀ other : Period, other.HasMonth → ¬ period.sharesMonth other →
          Disk.KeepsFile (path folder other) d e) ∧
      ∀ fault t e, (write folder period reports).run (s, d) = .error fault (t, e) →
        Refused folder period d e ∧
        ∀ other : Period, other.HasMonth → Disk.KeepsFile (path folder other) d e := by
  refine ⟨fun hseries period hperiod ↦ holdsLatest_of_series hseries hperiod,
    fun s d period reports hperiod ↦ ⟨fun written t e hwrite ↦ ?_, fun fault t e hwrite ↦ ?_⟩⟩
  · have hreplaced := replaced_of_write hwrite
    obtain ⟨hwritten, -⟩ := write_eq_ok hwrite
    exact ⟨hwritten, hreplaced, fun other ↦ hreplaced.keepsFile hperiod⟩
  · have hrefused := refused_of_write hwrite
    exact ⟨hrefused, fun other _ ↦ hrefused.keepsFile other⟩

/-! ## A spring of tables -/

section Spring

def springFolder : FilePath := ⟨"out"⟩

def aprilOf (day : UInt32) : Period := ⟨day, 4, 2016⟩

def mayOf (day : UInt32) : Period := ⟨day, 5, 2016⟩

def springReport (id : String) : Report Float :=
  ⟨⟨id⟩, ⟨.gcp, "1", "storage", ""⟩, "", aprilOf 1, "", ⟨1, 2⟩⟩

/-- A folder with the table of an earlier April, and with a folder in the place of May's draft. -/
def beforeSpring : Disk where
  here := []
  entries :=
    [(["out"], .folder), (["out", "2015-April-normalized-billing-data.csv"], .file [1]),
      (["out", "2016-May-normalized-billing-data.csv.tmp"], .folder)]

/-- The disk after one more report has been written. -/
def springWrite (period : Period) (id : String) (d : Disk) : Disk :=
  match (write springFolder period [springReport id]).run ((), d) with
  | .ok _ (_, e) => e
  | .error _ (_, e) => e

def afterApril : Disk := springWrite (aprilOf 3) "a" beforeSpring

def afterMay : Disk := springWrite (mayOf 1) "b" afterApril

def afterSpring : Disk := springWrite (aprilOf 9) "c" afterMay

/-- The table of April is replaced, the one of May is refused, and the earlier one is kept. -/
theorem months_hold_latest_spring :
    afterSpring.read (path springFolder (aprilOf 30)) = .ok (table [springReport "c"]) ∧
      afterSpring.held (path springFolder (mayOf 30)) = none ∧
      afterSpring.read ⟨"out/2015-April-normalized-billing-data.csv"⟩ = .ok [1] ∧
      Refused springFolder (mayOf 1) afterApril afterMay := by
  have hapril : (write springFolder (aprilOf 3) [springReport "a"]).run ((), beforeSpring) =
      .ok (path springFolder (aprilOf 3)) ((), afterApril) := rfl
  have hmay : (write springFolder (mayOf 1) [springReport "b"]).run ((), afterApril) =
      .error (.sheet .isFolder) ((), afterMay) := rfl
  have hlast : (write springFolder (aprilOf 9) [springReport "c"]).run ((), afterMay) =
      .ok (path springFolder (aprilOf 9)) ((), afterSpring) := rfl
  have hmonth (day : UInt32) : (aprilOf day).HasMonth ∧ (mayOf day).HasMonth :=
    ⟨⟨(by decide : 1 ≤ 4), (by decide : 4 ≤ 12)⟩, ⟨(by decide : 1 ≤ 5), (by decide : 5 ≤ 12)⟩⟩
  have hseries : Series springFolder beforeSpring
      [(aprilOf 9, [springReport "c"]), (aprilOf 3, [springReport "a"])] afterSpring :=
    .written (.refused (.written .start (hmonth 3).1 hapril) (hmonth 1).2 hmay) (hmonth 9).1 hlast
  obtain ⟨hholds, hwrites⟩ := months_hold_latest springFolder
  have hearlier : Period.HasMonth ⟨1, 4, 2015⟩ := ⟨by decide, by decide⟩
  refine ⟨hholds hseries (aprilOf 30) (hmonth 30).1, ?_, ?_, ?_⟩
  · exact (hholds hseries (mayOf 30) (hmonth 30).2).held_eq.trans (by decide +kernel)
  · exact (hholds hseries ⟨1, 4, 2015⟩ hearlier).read_eq [1] (by decide +kernel)
  · obtain ⟨-, hrefused⟩ := hwrites () afterApril (mayOf 1) [springReport "b"] (hmonth 1).2
    exact (hrefused _ _ _ hmay).1

end Spring

end CloudLedger.Archive
