import CloudLedger.Proofs.Above
import CloudLedger.Proofs.Reopening
import CloudLedger.Proofs.StateFile.Absence

/-!
# All or nothing

A save writes everything or leaves the store as it was.  If one of its steps fails, the history that
counts and the file at the path are the old ones, and all that is different on the disk are folders
above the path and the draft.  Only a path that led nowhere and turns around on its way can be led
to another file by such a folder.  If all steps succeed, the new history is at the path as it is
written, and the draft is gone.  Once nothing is in the way any more, a save that has failed can be
repeated and comes to the same.
-/

namespace CloudLedger.StateFile

open Files

variable {path folder : FilePath} {reports : List (Report Float)} {d e f : Disk} {o : Obstacle}
  {place : Place} {content : List UInt8}

theorem madeAbove_makeParent (path : FilePath) (d : Disk) :
    Disk.MadeAbove path d (DiskOp.leaves (makeParent path) d) := by
  rw [makeParent]
  cases hparent : path.parent? with
  | none => exact .refl path d
  | some folder => exact Disk.madeAbove_makeFoldersUpTo (.single hparent) _ d

/-! ## A replacement that fails -/

/-- What is different on a disk after a replacement that failed: some folders have been made, and
perhaps the draft has been written. -/
theorem replace_error_cases (h : (replace path reports).run d = .error o e) :
    ∃ f, Disk.MadeAbove path d f ∧ (e = f ∨ ∃ name source change,
      path.fileName? = some name ∧ f.Accepts (draftPath path) source ∧
        e = (f.put source (.file (render reports))).noting change) := by
  refine ⟨_, madeAbove_makeParent path d, ?_⟩
  rw [replace_run] at h
  split at h
  · rename_i hmake
    cases h
    exact .inl (DiskOp.leaves_of_error hmake).symm
  · rename_i f hmake
    rw [DiskOp.leaves_of_ok hmake]
    split at h
    · rename_i hwrite
      cases h
      exact .inl (DiskOp.eq_of_write_error hwrite)
    · rename_i g hwrite
      obtain rfl := DiskOp.eq_of_move_error h
      obtain ⟨name, hname⟩ := fileName?_of_move_error hwrite h
      obtain ⟨source, hsource, rfl⟩ := DiskOp.write_eq_ok.mp hwrite
      exact .inr ⟨name, source, _, hname, hsource, rfl⟩

/-- What a save that fails spares.  Nothing is different but folders above the path and the draft; a
path that led somewhere leads there, and to the same file or to none. -/
structure Spares (path : FilePath) (d e : Disk) : Prop where
  elsewhere : ∀ place, e.at? place = d.at? place ∨ Disk.MadeAt path d e place ∨
    e.locate (draftPath path) = .ok place ∧ ∃ content, e.at? place = some (.file content)
  leads : ∀ place, d.locate path = .ok place → e.locate path = .ok place
  file : ∀ place content, e.locate path = .ok place →
    (e.at? place = some (.file content) ↔ d.at? place = some (.file content))

theorem Spares.refl (path : FilePath) (d : Disk) : Spares path d d where
  elsewhere _ := .inl rfl
  leads _ := id
  file _ _ _ := Iff.rfl

theorem file_of_madeAbove (h : Disk.MadeAbove path d f) (place : Place) (content : List UInt8) :
    f.at? place = some (.file content) ↔ d.at? place = some (.file content) := by
  rcases h.made place with hsame | ⟨hnone, hfolder, -⟩
  · rw [hsame]
  · simp [hnone, hfolder]

/-- Folders that are made above a path bring no file to it, unless it led nowhere before and goes up
again on its way. -/
theorem read_iff_of_madeAbove (h : Disk.MadeAbove path d f)
    (hsteady : (∃ place, d.locate path = .ok place) ∨ d.IsConnected ∧ ".." ∉ path.names)
    (content : List UInt8) : f.read path = .ok content ↔ d.read path = .ok content := by
  constructor
  · intro hread
    obtain ⟨place, ⟨hplace, hslash, -⟩, hfile⟩ := Disk.accepts_of_read hread
    have hbefore := (file_of_madeAbove h place content).mp hfile
    have hlocate : d.locate path = .ok place := by
      rcases hsteady with ⟨other, hother⟩ | ⟨hconnected, hup⟩
      · have hthere := Disk.locate_of_keepsFolders h.keeps.keepsFolders hother
        rw [hother, ← hthere, hplace]
      · exact Disk.locate_of_extends h.keeps hconnected hup hbefore hplace
    refine Disk.read_eq_ok ⟨hlocate, hslash, ?_⟩ hbefore
    rw [hbefore]
    nofun
  · exact Disk.read_of_extends h.keeps

theorem spares_of_madeAbove (h : Disk.MadeAbove path d f) : Spares path d f where
  elsewhere place := (h.made place).imp_right .inl
  leads _ := Disk.locate_of_keepsFolders h.keeps.keepsFolders
  file place content _ := file_of_madeAbove h place content

/-- The draft is neither a folder above the path nor where the path leads. -/
theorem Spares.put_draft {name : String} {source : Place} (h : Spares path d f)
    (hname : path.fileName? = some name) (hsource : f.Accepts (draftPath path) source)
    (bytes : List UInt8) (change : Change) :
    Spares path d ((f.put source (.file bytes)).noting change) := by
  have hsame := (Disk.sameFolders_put bytes hsource.2.2).noting change
  have hforth {p : FilePath} {place : Place} (hplace : f.locate p = .ok place) :=
    Disk.locate_of_keepsFolders hsame.keepsFolders hplace
  constructor
  · intro place
    by_cases heq : place = source
    · subst heq
      exact .inr (.inr ⟨hforth hsource.1, bytes, Disk.at?_put_of_accepts bytes hsource⟩)
    · have hentry : ((f.put source (.file bytes)).noting change).at? place = f.at? place := by
        rw [Disk.at?_noting, Disk.at?_put_of_ne heq]
      rcases h.elsewhere place with hold | hmade | ⟨hplace, hfile⟩
      · exact .inl (hentry.trans hold)
      · exact .inr (.inl (hmade.of_keepsFolders hsame.keepsFolders))
      · exact .inr (.inr ⟨hforth hplace, hentry ▸ hfile⟩)
  · exact fun place hplace ↦ hforth (h.leads place hplace)
  · intro place content hplace
    have hplace' := Disk.locate_of_keepsFolders hsame.symm.keepsFolders hplace
    have hne := Disk.ne_of_locate hname (by decide) (by decide) hsource hplace'
    rw [Disk.at?_noting, Disk.at?_put_of_ne hne]
    exact h.file place content hplace'

theorem spares_of_replace_error (h : (replace path reports).run d = .error o e) :
    Spares path d e := by
  obtain ⟨f, hmade, rfl | ⟨name, source, change, hname, hsource, rfl⟩⟩ := replace_error_cases h
  · exact spares_of_madeAbove hmade
  · exact (spares_of_madeAbove hmade).put_draft hname hsource _ change

theorem read_iff_of_replace_error (h : (replace path reports).run d = .error o e)
    (hsteady : (∃ place, d.locate path = .ok place) ∨ d.IsConnected ∧ ".." ∉ path.names)
    (content : List UInt8) : e.read path = .ok content ↔ d.read path = .ok content := by
  obtain ⟨f, hmade, rfl | ⟨name, source, change, hname, hsource, rfl⟩⟩ := replace_error_cases h
  · exact read_iff_of_madeAbove hmade hsteady content
  · have hread := Disk.read_put_withExtension hname (by decide) (by decide) hsource (render reports)
    rw [← read_iff_of_madeAbove hmade hsteady content, ← hread]
    rfl

/-! ## A replacement that succeeds -/

/-- What a replacement leaves behind: the content at the path, no draft, and nothing else that is
different but folders above the path. -/
structure Replaced (path : FilePath) (content : List UInt8) (d e : Disk) : Prop where
  read_eq : e.read path = .ok content
  draft_gone : ∃ place, e.locate (draftPath path) = .ok place ∧ e.at? place = none
  elsewhere : ∀ place, e.at? place = d.at? place ∨ Disk.MadeAt path d e place ∨
    e.locate (draftPath path) = .ok place ∨ e.locate path = .ok place

theorem replaced_of_replace (h : (replace path reports).run d = .ok () e) :
    Replaced path (render reports) d e := by
  have hmade := madeAbove_makeParent path d
  have hread := read_of_replace h
  rw [replace_run] at h
  split at h
  · cases h
  · rename_i f hmake
    rw [DiskOp.leaves_of_ok hmake] at hmade
    split at h
    · cases h
    · rename_i g hwrite
      obtain ⟨source, target, hsource, htarget, hsame, hrest, hgone⟩ :=
        DiskOp.entries_of_write_move hwrite h
      obtain ⟨name, hname⟩ := htarget.exists_fileName
      have hne : source ≠ target :=
        (Disk.ne_of_locate hname (by decide) (by decide) hsource htarget.1).symm
      have hforth {p : FilePath} {place : Place} (hplace : f.locate p = .ok place) :=
        Disk.locate_of_keepsFolders hsame.keepsFolders hplace
      refine ⟨hread, ⟨source, hforth hsource.1, hgone hne⟩, fun place ↦ ?_⟩
      by_cases hplace : place = source
      · exact .inr (.inr (.inl (hplace ▸ hforth hsource.1)))
      by_cases hplace' : place = target
      · exact .inr (.inr (.inr (hplace' ▸ hforth htarget.1)))
      rcases hmade.made place with hold | hmade
      · exact .inl ((hrest place hplace hplace').trans hold)
      · exact .inr (.inl (hmade.of_keepsFolders hsame.keepsFolders))

/-! ## Nothing in the way -/

/-- Whether nothing is in the way of a replacement: the folder of the path can be made, and then
both the draft and the path lead to where a file can be. -/
def Clear (path : FilePath) (d : Disk) : Prop :=
  ∃ e, (makeParent path).run d = .ok () e ∧ (∃ place, e.Accepts (draftPath path) place) ∧
    ∃ place, e.Accepts path place

/-- A replacement succeeds exactly if nothing is in its way. -/
theorem replace_ok_iff : (∃ e, (replace path reports).run d = .ok () e) ↔ Clear path d := by
  constructor
  · rintro ⟨e, h⟩
    rw [replace_run] at h
    split at h
    · cases h
    · rename_i f hmake
      split at h
      · cases h
      · rename_i g hwrite
        obtain ⟨source, target, hsource, htarget, -⟩ := DiskOp.entries_of_write_move hwrite h
        exact ⟨f, hmake, ⟨source, hsource⟩, target, htarget⟩
  · rintro ⟨f, hmake, ⟨source, hsource⟩, target, htarget⟩
    obtain ⟨g, e, hwrite, hmove⟩ := DiskOp.publishes_of_accepts (render reports) hsource htarget
    refine ⟨e, ?_⟩
    rw [replace_run, hmake]
    dsimp only
    rw [hwrite]
    exact hmove

/-- Whether none of the obstacles is there that can be in the way of a plain path: a file in the
place of a folder above it, or a folder in the place of the draft or of the path itself. -/
structure Unobstructed (path : FilePath) (d : Disk) : Prop where
  plain : path.IsPlain
  plain_draft : (draftPath path).IsPlain
  tidy : path.IsTidy
  noSlash : ¬ path.endsInSlash
  named : ∃ name, path.fileName? = some name
  above : ∀ place, place <+: d.below path → place ≠ d.below path →
    d.at? place = none ∨ d.at? place = some .folder
  draft : d.at? (d.below (draftPath path)) ≠ some .folder
  target : d.at? (d.below path) ≠ some .folder

theorem Unobstructed.isOpen {place : Place} {name : String} (h : Unobstructed path d)
    (hbelow : d.below path = place ++ [name]) : d.IsOpen place := by
  intro above habove content hfile
  have hne : above ≠ d.below path := by
    intro heq
    have hlength := habove.length_le
    rw [heq, hbelow, List.length_append, List.length_singleton] at hlength
    omega
  rcases h.above above (hbelow ▸ habove.trans (List.prefix_append ..)) hne with hnone | hfolder
  · cases hnone.symm.trans hfile
  · cases hfolder.symm.trans hfile

/-- A plain path is clear unless one of the obstacles is there. -/
theorem clear_of_unobstructed (h : Unobstructed path d) : Clear path d := by
  obtain ⟨name, hname⟩ := h.named
  have hfurther := FilePath.further_ne_nil hname
  obtain ⟨folder, hparent⟩ := Option.ne_none_iff_exists'.mp
    fun hnone ↦ hfurther (FilePath.further_of_parent?_none hnone)
  have hcontinues := FilePath.continues_of_parent? hparent
  obtain ⟨dots, hnames, hdots⟩ := Disk.names_of_isTidy h.tidy hfurther hcontinues
  obtain ⟨hlast, -, hstay, -⟩ := FilePath.last_of_fileName? hname
  -- the folder that the path lies in can be made
  have hbelow : d.below path = d.below folder ++ [path.last] :=
    Disk.below_beside hnames hdots (hlast ▸ hstay) hcontinues.isAbsolute_eq
  have hplain := h.plain.of_continues hcontinues
  obtain ⟨e, he⟩ := DiskOp.makeFoldersUpTo_ok hplain (FilePath.isTidy_of_parent? hparent)
    (h.isOpen hbelow) (Nat.lt_succ_of_le (List.length_filter_le _ folder.pieces))
  have hmake : (makeParent path).run d = .ok () e := by
    rw [makeParent, hparent]
    exact he
  have hfolder := isFolder_of_makeParent hmake hparent
  have hraises := Disk.raises_makeFoldersUpTo (folder.pieces.length + 1) hplain.down
    (le_refl (Disk.depth d.here folder)) rfl
  rw [DiskOp.leaves_of_ok he] at hraises
  refine ⟨e, hmake, ⟨d.below (draftPath path), ?_⟩, d.below path, ?_⟩
  · obtain ⟨dots', hfront, hdots'⟩ := hcontinues.front_eq
    have hdraft : (draftPath path).names = _ := FilePath.names_withExtension hname (by decide)
    have habsolute : (draftPath path).isAbsolute = _ :=
      FilePath.isAbsolute_withExtension hname (by decide)
    rw [hfront] at hdraft
    exact Disk.accepts_beside hraises hfolder h.plain_draft
      (FilePath.not_endsInSlash_withExtension hname (by decide)) hdraft hdots'
      (path.renamed_ne_dot (by decide)) (hcontinues.isAbsolute_eq.trans habsolute.symm) h.draft
  · exact Disk.accepts_beside hraises hfolder h.plain h.noSlash hnames hdots (hlast ▸ hstay)
      hcontinues.isAbsolute_eq h.target

/-! ## Saving -/

variable {s t : StateFile} {cause : Fault}

theorem additions_ne_nil_of_save_error
    (h : (Store.save reports).run (s, d) = .error cause (t, e)) (hne : reports ≠ []) :
    s.history.additions reports ≠ [] := by
  intro hnone
  rw [KeepsHistory.save_known s d hne (History.additions_eq_nil.mp hnone)] at h
  cases h

theorem spares_of_save_error (h : (Store.save reports).run (s, d) = .error cause (t, e)) :
    Spares s.path d e := by
  obtain ⟨-, rfl | ⟨o, hreplace⟩⟩ := save_eq_error h
  · exact .refl s.path e
  · exact spares_of_replace_error hreplace

theorem read_of_save_error (h : (Store.save reports).run (s, d) = .error cause (t, e))
    (hread : d.read s.path = .ok content) : e.read s.path = .ok content := by
  obtain ⟨-, rfl | ⟨o, hreplace⟩⟩ := save_eq_error h
  · exact hread
  · exact read_of_replace_error hread hreplace

theorem read_iff_of_save_error (h : (Store.save reports).run (s, d) = .error cause (t, e))
    (hsteady : (∃ place, d.locate s.path = .ok place) ∨ d.IsConnected ∧ ".." ∉ s.path.names)
    (content : List UInt8) : e.read s.path = .ok content ↔ d.read s.path = .ok content := by
  obtain ⟨-, rfl | ⟨o, hreplace⟩⟩ := save_eq_error h
  · exact Iff.rfl
  · exact read_iff_of_replace_error hreplace hsteady content

/-- What is written is all there, if its figures are finite. -/
theorem exists_reread_of_written (h : Written t e)
    (hfinite : ∀ r ∈ t.history.reports, r.measures.IsFinite) :
    ∃ u, load t.path e = .ok u ∧
      List.Forall₂ (fun r v ↦ rereadReport r = .ok v) t.history.reports u.history.reports := by
  obtain ⟨u, hload⟩ := (load_ok_iff h).mpr hfinite
  exact ⟨u, hload, (reread_of_load h hload).2⟩

/-- Where nothing is in the way, what is new is saved. -/
theorem save_of_clear (hnew : s.history.additions reports ≠ []) (hclear : Clear s.path d) :
    ∃ e, (Store.save reports).run (s, d) =
      .ok () ({ s with history := s.history.add reports }, e) := by
  have hne : reports ≠ [] := by
    rintro rfl
    exact hnew rfl
  obtain ⟨e, hreplace⟩ := replace_ok_iff.mpr hclear
  refine ⟨e, ?_⟩
  rw [save_run hne, if_neg hnew, hreplace]

/-- A save that fails leaves the store as it was and spares the disk.  What was read from the path
is still read; and nothing else is, if the path led somewhere or does not go up again.  Repeating
the save comes to the same store and the same file as if nothing had ever been in the way.  A save
that succeeds writes all reports in one piece, which are read again if their figures are finite; if
nothing is new, it does not need the disk. -/
theorem save_all_or_nothing (s : StateFile) (reports : List (Report Float)) (d : Disk) :
    (∀ cause t e, (Store.save reports).run (s, d) = .error cause (t, e) →
      t = s ∧ (∀ q, Store.lookup t q = Store.lookup s q) ∧ Spares s.path d e ∧
      (∀ content, d.read s.path = .ok content → e.read s.path = .ok content) ∧
      ((∃ place, d.locate s.path = .ok place) ∨ d.IsConnected ∧ ".." ∉ s.path.names →
        ∀ content, e.read s.path = .ok content ↔ d.read s.path = .ok content) ∧
      (reports ≠ [] → ∀ f, Clear s.path f →
        ∃ u g, (Store.save reports).run (t, f) = .ok () (u, g) ∧
          ∀ d' u' e', (Store.save reports).run (s, d') = .ok () (u', e') →
            u = u' ∧ g.read s.path = e'.read s.path)) ∧
    (∀ t e, (Store.save reports).run (s, d) = .ok () (t, e) →
      t = { s with history := s.history.add reports } ∧
      (s.history.additions reports ≠ [] → Replaced s.path (render t.history.reports) d e ∧
        ((∀ r ∈ t.history.reports, r.measures.IsFinite) → ∃ u, load s.path e = .ok u ∧
          List.Forall₂ (fun r v ↦ rereadReport r = .ok v) t.history.reports u.history.reports)) ∧
      (s.history.additions reports = [] → t = s ∧ e = d)) ∧
    (reports ≠ [] → s.history.additions reports = [] →
      (Store.save reports).run (s, d) = .ok () (s, d)) ∧
    ∀ f, Unobstructed s.path f → Clear s.path f := by
  refine ⟨?_, ?_, ?_, fun f ↦ clear_of_unobstructed⟩
  · intro cause t e h
    obtain ⟨rfl, -⟩ := save_eq_error h
    refine ⟨rfl, fun q ↦ rfl, spares_of_save_error h, fun content ↦ read_of_save_error h,
      read_iff_of_save_error h, fun hne f hclear ↦ ?_⟩
    have hnew := additions_ne_nil_of_save_error h hne
    obtain ⟨g, hagain⟩ := save_of_clear hnew hclear
    refine ⟨_, g, hagain, fun d' u' e' hfirst ↦ ?_⟩
    obtain ⟨-, hu', -⟩ := save_eq_ok hfirst
    have hwritten : g.read _ = _ := written_of_save hagain hnew
    have hwritten' : e'.read _ = _ := written_of_save hfirst hnew
    rw [hu'] at hwritten'
    exact ⟨hu'.symm, hwritten.trans hwritten'.symm⟩
  · intro t e h
    obtain ⟨-, ht, he⟩ := save_eq_ok h
    refine ⟨ht, fun hnew ↦ ⟨?_, fun hfinite ↦ ?_⟩, eq_of_save h⟩
    · rw [if_neg hnew] at he
      exact replaced_of_replace he
    · have hpath : t.path = s.path := ht ▸ rfl
      exact hpath ▸ exists_reread_of_written (written_of_save h hnew) hfinite
  · exact fun hne hnone ↦ KeepsHistory.save_known s d hne (History.additions_eq_nil.mp hnone)

section Blocked

def vmUsage : Report Float := ⟨⟨"vm"⟩, ⟨.azure, "1", "vm", ""⟩, "", ⟨1, 4, 2016⟩, "", ⟨1.0, 2.0⟩⟩

def blockedFile : StateFile := ⟨⟨"state/reports.json"⟩, ⟨[], List.nodup_nil⟩⟩

/-- A folder is in the place of the draft. -/
def blockedDisk : Disk where
  here := []
  entries := [(["state"], .folder), (["state", "reports.json.tmp"], .folder)]

/-- The folder is out of the way. -/
def freedDisk : Disk := DiskOp.leaves (DiskOp.remove (draftPath blockedFile.path)) blockedDisk

theorem unobstructed_freedDisk : Unobstructed blockedFile.path freedDisk where
  plain := ⟨by decide +kernel, by decide +kernel, by rw [LeadDown]; decide +kernel⟩
  plain_draft := ⟨by decide +kernel, by decide +kernel, by rw [LeadDown]; decide +kernel⟩
  tidy := by rw [FilePath.IsTidy]; decide +kernel
  noSlash := by decide +kernel
  named := ⟨"reports.json", by decide +kernel⟩
  above := by
    have hall : ∀ place ∈ (freedDisk.below blockedFile.path).inits,
        place ≠ freedDisk.below blockedFile.path →
          freedDisk.at? place = none ∨ freedDisk.at? place = some .folder := by
      decide +kernel
    exact fun place hprefix ↦ hall place ((List.mem_inits _ _).mpr hprefix)
  draft := by decide +kernel
  target := by decide +kernel

/-- A save that a folder keeps from writing its draft leaves everything as it was; once the folder
is removed, it writes; and then it needs the disk no more. -/
theorem save_all_or_nothing_blocked :
    (∃ cause, (Store.save [vmUsage]).run (blockedFile, blockedDisk) =
      .error cause (blockedFile, blockedDisk)) ∧
    ∃ t e, (Store.save [vmUsage]).run (blockedFile, freedDisk) = .ok () (t, e) ∧
      e.read blockedFile.path = .ok (render [vmUsage]) ∧
      (Store.save [vmUsage]).run (t, blockedDisk) = .ok () (t, blockedDisk) := by
  have hblocked : (Store.save [vmUsage]).run (blockedFile, blockedDisk) =
      .error (.save (.file blockedFile.path .isFolder)) (blockedFile, blockedDisk) := rfl
  obtain ⟨hrefused, -, -, hclear⟩ := save_all_or_nothing blockedFile [vmUsage] blockedDisk
  obtain ⟨-, -, -, -, -, hretry⟩ := hrefused _ _ _ hblocked
  obtain ⟨t, e, hagain, -⟩ := hretry (by decide) _ (hclear _ unobstructed_freedDisk)
  obtain ⟨-, hsaved, -⟩ := save_all_or_nothing blockedFile [vmUsage] freedDisk
  obtain ⟨ht, hreplaced, -⟩ := hsaved t e hagain
  have hreports : t.history.reports = [vmUsage] := by
    rw [ht]
    rfl
  obtain ⟨-, -, hknown, -⟩ := save_all_or_nothing t [vmUsage] blockedDisk
  have hnone : t.history.additions [vmUsage] = [] := by
    rw [History.additions, History.ids, hreports]
    decide
  have hread := (hreplaced (List.cons_ne_nil _ _)).1.read_eq
  rw [hreports] at hread
  exact ⟨⟨_, hblocked⟩, t, e, hagain, hread, hknown (by decide) hnone⟩

/-- A save that fails can bring a file to a path that turns around, and one that succeeds can leave
a file that does not hold the history any more, if a figure in it is not finite. -/
theorem exists_save_error_read_ne :
    (∃ (s : StateFile) (d e : Disk) (cause : Fault),
      (Store.save [vmUsage]).run (s, d) = .error cause (s, e) ∧
      d.read s.path = .error .missing ∧ e.read s.path = .ok (render [vmUsage])) ∧
    ∃ (s t : StateFile) (d e : Disk),
      (Store.save [overflowingReport]).run (s, d) = .ok () (t, e) ∧
      t.history.reports = [overflowingReport] ∧ ¬ ∃ u, load t.path e = .ok u := by
  constructor
  · obtain ⟨e, hsave, hread⟩ := save_turningDisk (render [vmUsage]) vmUsage
    exact ⟨_, _, e, _, hsave, read_turningDisk _, hread⟩
  · obtain ⟨e, hsave⟩ := save_first overflowingReport
    refine ⟨_, _, _, e, hsave, rfl, fun hload ↦ ?_⟩
    have hwritten : Written _ e := written_of_save hsave (List.cons_ne_nil _ _)
    have hfinite := (load_ok_iff hwritten).mp hload overflowingReport (List.mem_singleton_self _)
    have hcost : ¬ overflowingReport.measures.cost.isFinite := by decide +kernel
    exact hcost hfinite.2

end Blocked

end CloudLedger.StateFile
