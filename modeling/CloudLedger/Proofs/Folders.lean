import CloudLedger.Proofs.Walking

/-!
# The folder that a path lies in

A path that leads somewhere leads through the folder that it lies in.  So once making folders has
gone as far as it can, making them again changes nothing, whether or not they could all be made.
Folders that are made above a path bring nothing to where it leads, as long as the path only leads
down and everything on the disk lies in a folder.
-/

namespace CloudLedger.Files

namespace Disk

variable {d : Disk} {p folder : FilePath} {place : Place}

/-- A path that leads somewhere leads through the folder that it lies in. -/
theorem isFolder_of_locate (h : d.locate p = .ok place) (hparent : p.parent? = some folder)
    (hsome : folder.text ≠ "") : d.isFolder folder := by
  have hcontinues := FilePath.continues_of_parent? hparent
  obtain ⟨dots, more, hnames, hdots, -⟩ := hcontinues.names_eq
  obtain ⟨cs, htext⟩ := hcontinues.text_prefix
  obtain ⟨hnull, -, hlong, hwalk⟩ := locate_eq_ok.mp h
  rw [hnames, walk_append_eq_ok] at hwalk
  obtain ⟨middle, hfolder, hrest⟩ := hwalk
  obtain ⟨start, hstart, hstay⟩ := walk_append_eq_ok.mp hfolder
  obtain rfl := eq_of_walk_dots hdots hstay
  obtain ⟨next, hnext, -⟩ := walk_cons_eq_ok.mp hrest
  refine isFolder_iff.mpr ⟨middle, locate_eq_ok.mpr ⟨?_, hsome, ?_, ?_⟩, folder_of_enter hnext⟩
  · intro hmem
    apply hnull
    rw [FilePath.holdsNull, List.contains_iff_mem] at hmem ⊢
    exact htext ▸ List.mem_append_left cs hmem
  · rw [size, Text.Utf8.encode, ← htext, List.flatMap_append, List.length_append] at hlong
    rw [size, Text.Utf8.encode]
    omega
  · rwa [hcontinues.isAbsolute_eq]

end Disk

namespace DiskOp

open Disk

variable {d e f : Disk} {p folder : FilePath} {o : Obstacle} {steps : Nat}

/-! ## Making folders again -/

theorem eq_of_makeFolder_error (h : (makeFolder p).run d = .error o e) : e = d := by
  rw [makeFolder_run] at h
  split at h
  · cases h
    rfl
  · split_ifs at h
    cases h
    rfl

theorem of_ensureFolder_error (h : (ensureFolder p).run d = .error o e) :
    e = d ∧ ¬ d.isFolder p := by
  rw [ensureFolder_run] at h
  cases hrun : (makeFolder p).run d with
  | ok _ f =>
    rw [hrun] at h
    cases h
  | error cause f =>
    obtain rfl := eq_of_makeFolder_error hrun
    rw [hrun] at h
    dsimp only at h
    split_ifs at h with hfolder
    cases h
    exact ⟨rfl, hfolder⟩

theorem exists_place_of_ensureFolder (h : (ensureFolder p).run d = .ok () e) :
    ∃ place, d.locate p = .ok place := by
  rw [ensureFolder_run, makeFolder_run] at h
  cases hplace : d.locate p with
  | ok place => exact ⟨place, rfl⟩
  | error o =>
    rw [hplace] at h
    by_cases hfolder : d.isFolder p
    · obtain ⟨place, hlocate, -⟩ := isFolder_iff.mp hfolder
      cases hplace.symm.trans hlocate
    · simp [hfolder] at h

/-- What lies in a folder that is not there cannot be made. -/
theorem ensureFolder_error_of_not_isFolder (hparent : p.parent? = some folder)
    (hsome : folder.text ≠ "") (h : ¬ d.isFolder folder) :
    ¬ d.isFolder p ∧ ∃ o, (ensureFolder p).run d = .error o d := by
  have hnowhere : ¬ ∃ place, d.locate p = .ok place := fun ⟨place, hplace⟩ ↦
    h (isFolder_of_locate hplace hparent hsome)
  constructor
  · intro hfolder
    obtain ⟨place, hplace, -⟩ := isFolder_iff.mp hfolder
    exact hnowhere ⟨place, hplace⟩
  · cases hrun : (ensureFolder p).run d with
    | ok _ e => exact absurd (exists_place_of_ensureFolder hrun) hnowhere
    | error o e =>
      obtain ⟨rfl, -⟩ := of_ensureFolder_error hrun
      exact ⟨o, rfl⟩

theorem makeFoldersUpTo_of_ok (h : (makeFoldersUpTo p steps).run d = .ok () e) :
    (makeFoldersUpTo p steps).run e = .ok () e := by
  cases steps with
  | zero => rfl
  | succ steps =>
    by_cases hempty : p.text = ""
    · exact makeFoldersUpTo_of_empty hempty _
    · exact makeFoldersUpTo_of_isFolder (isFolder_of_makeFoldersUpTo hempty h) _

section Errors

variable (hempty : p.text ≠ "") (h : (ensureFolder p).run d = .error o d)
include hempty h

theorem makeFoldersUpTo_error_at_once (hstop : o ≠ .missing ∨ p.parent? = none) :
    (makeFoldersUpTo p (steps + 1)).run d = .error o d := by
  rw [makeFoldersUpTo_run, if_neg hempty, h]
  dsimp only
  split_ifs with hmissing
  · rfl
  · rw [hstop.resolve_left hmissing]

/-- Where a folder cannot be made and nothing changes above it, making it changes nothing. -/
theorem makeFoldersUpTo_error_above (hparent : p.parent? = some folder)
    (habove : (makeFoldersUpTo folder steps).run d = .ok () d ∨
      ∃ o, (makeFoldersUpTo folder steps).run d = .error o d) :
    ∃ o, (makeFoldersUpTo p (steps + 1)).run d = .error o d := by
  rw [makeFoldersUpTo_run, if_neg hempty, h]
  dsimp only
  split_ifs with hmissing
  · exact ⟨o, rfl⟩
  · rw [hparent]
    rcases habove with hok | ⟨cause, herror⟩
    · simp only [hok, h]
      exact ⟨o, rfl⟩
    · simp only [herror]
      exact ⟨cause, rfl⟩

end Errors

/-- Where folders could not be made there is none, and they cannot be made by trying again. -/
theorem makeFoldersUpTo_of_error (h : (makeFoldersUpTo p steps).run d = .error o e) :
    ¬ e.isFolder p ∧ ∃ o, (makeFoldersUpTo p steps).run e = .error o e := by
  induction steps generalizing p d o e with
  | zero => cases h
  | succ steps ih =>
    rw [makeFoldersUpTo_run] at h
    split_ifs at h with hempty
    cases hfirst : (ensureFolder p).run d with
    | ok _ f =>
      rw [hfirst] at h
      cases h
    | error cause f =>
      obtain ⟨rfl, hnot⟩ := of_ensureFolder_error hfirst
      rw [hfirst] at h
      dsimp only at h
      split_ifs at h with hmissing
      · cases h
        exact ⟨hnot, _, makeFoldersUpTo_error_at_once hempty hfirst (.inl hmissing)⟩
      · cases hparent : p.parent? with
        | none =>
          rw [hparent] at h
          cases h
          exact ⟨hnot, _, makeFoldersUpTo_error_at_once hempty hfirst (.inr hparent)⟩
        | some folder =>
          rw [hparent] at h
          dsimp only at h
          cases hfolder : (makeFoldersUpTo folder steps).run f with
          | ok _ g =>
            rw [hfolder] at h
            obtain ⟨rfl, hnot⟩ := of_ensureFolder_error h
            exact ⟨hnot, makeFoldersUpTo_error_above hempty h hparent
              (.inl (makeFoldersUpTo_of_ok hfolder))⟩
          | error above g =>
            have hsome : folder.text ≠ "" := by
              intro hnil
              rw [makeFoldersUpTo_of_empty hnil] at hfolder
              cases hfolder
            rw [hfolder] at h
            cases h
            obtain ⟨hnotFolder, hagain⟩ := ih hfolder
            obtain ⟨hnot, _, hretry⟩ :=
              ensureFolder_error_of_not_isFolder hparent hsome hnotFolder
            exact ⟨hnot, makeFoldersUpTo_error_above hempty hretry hparent (.inr hagain)⟩

/-- Once folders have been made as far as they can be, making them changes nothing. -/
theorem leaves_makeFolders (p : FilePath) (d : Disk) :
    leaves (makeFolders p) (leaves (makeFolders p) d) = leaves (makeFolders p) d := by
  cases hrun : (makeFolders p).run d with
  | ok _ e =>
    rw [leaves_of_ok hrun]
    exact leaves_of_ok (makeFoldersUpTo_of_ok hrun)
  | error o e =>
    rw [leaves_of_error hrun]
    obtain ⟨-, _, hagain⟩ := makeFoldersUpTo_of_error hrun
    exact leaves_of_error hagain

end DiskOp

/-! ## Above a path that only leads down -/

theorem LeadDown.of_continues {folder p : FilePath} (hdown : LeadDown p.names)
    (h : folder.Continues p) : LeadDown folder.names := by
  obtain ⟨dots, more, hnames, -, -⟩ := h.names_eq
  intro name hname
  apply hdown
  rw [hnames]
  exact List.mem_append_left _ (List.mem_append_left _ hname)

namespace Disk

variable {d e f : Disk} {p : FilePath} {name : String} {place other : Place} {names : List String}
  {bound : Nat}

/-! ### Where there is nothing -/

/-- Whether everything that is there lies in a folder. -/
def IsConnected (d : Disk) : Prop :=
  ∀ place name, d.at? place = none → d.at? (place ++ [name]) = none

/-- Whether a walk ends where there is nothing. -/
def EndsNowhere (d : Disk) (place : Place) (names : List String) : Prop :=
  names.foldlM d.enter place = .error .missing ∨
    ∃ other, names.foldlM d.enter place = .ok other ∧ d.at? other = none

theorem endsNowhere_of_none (h : d.at? place = none) (names : List String) :
    d.EndsNowhere place names := by
  cases names with
  | nil => exact .inr ⟨place, rfl, h⟩
  | cons name names =>
    left
    rw [List.foldlM_cons, enter, h]
    rfl

theorem read_eq_missing_iff : d.read p = .error .missing ↔
    ¬ p.holdsNull ∧ (p.text = "" ∨ ¬ longestPath < size p.text ∧
      d.EndsNowhere (if p.isAbsolute then [] else d.here) p.names) := by
  have hread : d.read p = .error .missing ↔ d.locate p = .error .missing ∨
      ∃ place, d.locate p = .ok place ∧ d.at? place = none := by
    rw [read, find]
    cases d.locate p with
    | error o => simp [bind, Except.bind]
    | ok place =>
      cases hentry : d.at? place with
      | none => simp [bind, Except.bind, hentry]
      | some entry =>
        cases entry with
        | folder => simp [bind, Except.bind, hentry]
        | file content =>
          by_cases hslash : p.endsInSlash <;> simp [bind, Except.bind, hentry, hslash]
  rw [hread, locate, EndsNowhere]
  by_cases hnull : p.holdsNull
  · simp [hnull]
  · rw [if_neg hnull]
    by_cases hempty : p.text = ""
    · simp [hempty, hnull]
    · rw [if_neg hempty]
      by_cases hlong : longestPath < size p.text <;> simp [hnull, hempty, hlong]

theorem endsNowhere_cons (h : d.enter place name = .ok other) :
    d.EndsNowhere place (name :: names) ↔ d.EndsNowhere other names := by
  rw [EndsNowhere, EndsNowhere, List.foldlM_cons, h]
  rfl

/-- Whether another disk has more folders, none of them deeper than a bound, and nothing else. -/
structure Raises (d e : Disk) (bound : Nat) : Prop where
  keeps : d.Extends e
  made : ∀ place, e.at? place = d.at? place ∨
    e.at? place = some .folder ∧ place.length ≤ bound

theorem Raises.refl (d : Disk) (bound : Nat) : d.Raises d bound := ⟨.refl d, fun _ ↦ .inl rfl⟩

theorem Raises.trans (hde : d.Raises e bound) (hef : e.Raises f bound) : d.Raises f bound where
  keeps := hde.keeps.trans hef.keeps
  made place := by
    rcases hef.made place with hsame | hmade
    · rw [hsame]
      exact hde.made place
    · exact .inr hmade

/-- Folders that are made above a place do not bring anything there. -/
theorem Raises.endsNowhere (h : d.Raises e bound) (hconnected : d.IsConnected)
    (hdown : LeadDown names) (hbound : bound < (place ++ further names).length)
    (hnowhere : d.EndsNowhere place names) : e.EndsNowhere place names := by
  induction names generalizing place with
  | nil =>
    rcases hnowhere with hmissing | ⟨other, hother, hnone⟩
    · cases hmissing
    · cases hother
      rw [further, List.filter_nil, List.append_nil] at hbound
      rcases h.made place with hsame | ⟨-, hle⟩
      · exact endsNowhere_of_none (hsame.trans hnone) []
      · omega
  | cons name names ih =>
    obtain ⟨hup, hsize⟩ := hdown name List.mem_cons_self
    rw [further_cons, ← List.append_assoc] at hbound
    have hgo : e.at? place = some .folder → d.EndsNowhere (place ++ further [name]) names →
        e.EndsNowhere place (name :: names) := fun hfolder hnext ↦
      (endsNowhere_cons (enter_of_folder hfolder hup hsize)).mpr (ih hdown.tail hbound hnext)
    cases hentry : d.at? place with
    | none =>
      rcases h.made place with hsame | ⟨hfolder, -⟩
      · exact endsNowhere_of_none (hsame.trans hentry) _
      · refine hgo hfolder (endsNowhere_of_none ?_ names)
        by_cases hdot : name = "."
        · simpa [hdot, further] using hentry
        · simpa [hdot, further] using hconnected place name hentry
    | some entry =>
      cases entry with
      | folder =>
        exact hgo (h.keeps.entry place _ hentry)
          ((endsNowhere_cons (enter_of_folder hentry hup hsize)).mp hnowhere)
      | file content =>
        rw [EndsNowhere, List.foldlM_cons, enter, hentry] at hnowhere
        rcases hnowhere with hmissing | ⟨other, hother, -⟩
        · cases hmissing
        · cases hother

/-! ### Folders above a path -/

/-- How deep a path leads, given the folder that paths start from. -/
def depth (here : Place) (p : FilePath) : Nat :=
  ((if p.isAbsolute then [] else here) ++ further p.names).length

theorem length_of_locate (hdown : LeadDown p.names) (h : d.locate p = .ok place) :
    place.length = depth d.here p := by
  obtain ⟨-, -, -, hwalk⟩ := locate_eq_ok.mp h
  rw [eq_of_walk hdown hwalk, depth]

theorem depth_of_continues {folder : FilePath} (h : folder.Continues p) (here : Place) :
    depth here p = depth here folder + (further [p.last]).length := by
  obtain ⟨dots, more, hnames, hdots, hmore⟩ := h.names_eq
  have hfurther : further p.names = further folder.names ++ further [p.last] := by
    rw [hnames, further_append, further_append, further_cons, further_dots hdots,
      further_dots hmore, List.append_nil, List.append_nil]
  rw [depth, depth, hfurther, h.isAbsolute_eq, ← List.append_assoc, List.length_append]

theorem raises_ensureFolder (hdown : LeadDown p.names) (hbound : depth d.here p ≤ bound) :
    d.Raises (DiskOp.leaves (DiskOp.ensureFolder p) d) bound := by
  refine ⟨DiskOp.extends_ensureFolder p d, fun other ↦ ?_⟩
  rw [DiskOp.leaves, DiskOp.ensureFolder_run, DiskOp.makeFolder_run]
  cases hplace : d.locate p with
  | error o => by_cases hfolder : d.isFolder p <;> simp [hfolder]
  | ok place =>
    have hdeep : place.length ≤ bound := (length_of_locate hdown hplace).trans_le hbound
    cases hentry : d.at? place with
    | some entry => by_cases hfolder : d.isFolder p <;> simp [hentry, hfolder]
    | none =>
      simp only [hentry, Option.isSome_none, Bool.false_eq_true, if_false, at?_noting]
      by_cases hother : other = place
      · right
        rw [hother, at?_put_self]
        exact ⟨by split_ifs <;> rfl, hdeep⟩
      · exact .inl (at?_put_of_ne hother _)

/-- Folders above a path are made no deeper than the path leads. -/
theorem raises_makeFoldersUpTo {here : Place} (steps : Nat) (hdown : LeadDown p.names)
    (hbound : depth here p ≤ bound) :
    d.here = here → d.Raises (DiskOp.leaves (DiskOp.makeFoldersUpTo p steps) d) bound := by
  apply DiskOp.makeFoldersUpTo_induction (fun d e ↦ d.here = here → d.Raises e bound)
    fun p ↦ LeadDown p.names ∧ depth here p ≤ bound
  · exact fun d _ ↦ .refl d bound
  · intro d e f hde hef hhere
    have hraises := hde hhere
    exact hraises.trans (hef (hraises.keeps.here_eq.trans hhere))
  · intro p d hp hhere
    exact raises_ensureFolder hp.1 (hhere ▸ hp.2)
  · intro p folder hp hparent
    have hcontinues := FilePath.continues_of_parent? hparent
    have hdepth := depth_of_continues hcontinues here
    exact ⟨hp.1.of_continues hcontinues, (Nat.le_add_right ..).trans (hdepth.symm.trans_le hp.2)⟩
  · exact ⟨hdown, hbound⟩

end Disk

end CloudLedger.Files
