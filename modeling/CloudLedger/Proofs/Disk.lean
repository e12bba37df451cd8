import CloudLedger.Files.Disk
import CloudLedger.Proofs.Outcomes
import Mathlib.Data.List.Basic

/-!
# What operations do to the disk

Where a path leads depends only on which places are folders.  Writing and moving files leave the
folders as they are, and making folders leaves everything as it was; so what could be written once
can be written again, and it is read back from the path it was moved to.
-/

namespace CloudLedger.Files

namespace Disk

variable {d e f : Disk} {p : FilePath} {place other : Place}

/-! ## Entries -/

theorem at?_of_isPrefixOf (h : place.isPrefixOf d.here) : d.at? place = some .folder :=
  if_pos h

theorem find?_without {dropped : Place → Bool} (hkept : ¬ dropped other) :
    ((d.without dropped).entries.find? fun entry ↦ entry.1 = other) =
      d.entries.find? fun entry ↦ entry.1 = other := by
  have hsame : (fun entry : Place × Entry ↦
      decide ((!dropped entry.1) = true ∧ decide (entry.1 = other) = true)) =
        fun entry ↦ decide (entry.1 = other) := by
    funext entry
    by_cases hentry : entry.1 = other <;> simp [hentry, hkept]
  rw [without, List.find?_filter, hsame]

theorem at?_without (d : Disk) (dropped : Place → Bool) (other : Place) :
    (d.without dropped).at? other =
      if other.isPrefixOf d.here then some .folder
      else if dropped other then none else d.at? other := by
  have hhere : (d.without dropped).here = d.here := rfl
  rw [at?, at?, hhere]
  by_cases hprefix : other.isPrefixOf d.here
  · rw [if_pos hprefix, if_pos hprefix]
  · rw [if_neg hprefix, if_neg hprefix, if_neg hprefix]
    by_cases hdropped : dropped other
    · rw [if_pos hdropped, List.find?_eq_none.mpr, Option.map_none]
      intro entry hentry
      have hkept : (!dropped entry.1) = true := (List.mem_filter.mp hentry).2
      by_cases heq : entry.1 = other
      · simp [heq, hdropped] at hkept
      · simp [heq]
    · rw [if_neg hdropped, find?_without hdropped]

theorem at?_put (d : Disk) (place : Place) (entry : Entry) (other : Place) :
    (d.put place entry).at? other =
      if other.isPrefixOf d.here then some .folder
      else if other = place then some entry else d.at? other := by
  have hhere : (d.put place entry).here = d.here := rfl
  rw [at?, at?, hhere, put]
  by_cases hprefix : other.isPrefixOf d.here
  · rw [if_pos hprefix, if_pos hprefix]
  · rw [if_neg hprefix, if_neg hprefix, if_neg hprefix]
    by_cases heq : other = place
    · simp [heq]
    · have hne : ¬ place = other := fun h ↦ heq h.symm
      rw [if_neg heq, List.find?_cons_of_neg (by simpa using hne),
        find?_without (by simpa using heq)]

theorem at?_put_self (d : Disk) (place : Place) (entry : Entry) :
    (d.put place entry).at? place =
      if place.isPrefixOf d.here then some .folder else some entry := by
  rw [at?_put, if_pos rfl]

theorem at?_put_of_ne (h : other ≠ place) (entry : Entry) :
    (d.put place entry).at? other = d.at? other := by
  rw [at?_put]
  split_ifs with hprefix
  · rw [at?_of_isPrefixOf hprefix]
  · rfl

theorem at?_without_of_ne (h : other ≠ place) :
    (d.without (· = place)).at? other = d.at? other := by
  rw [at?_without]
  split_ifs with hprefix heq
  · rw [at?_of_isPrefixOf hprefix]
  · exact absurd (of_decide_eq_true heq) h
  · rfl

@[simp]
theorem at?_noting (d : Disk) (change : Change) (place : Place) :
    (d.noting change).at? place = d.at? place := rfl

/-! ## Folders -/

/-- Every folder of a disk is one of another disk, too. -/
structure KeepsFolders (d e : Disk) : Prop where
  here_eq : e.here = d.here
  folder : ∀ place, d.at? place = some .folder → e.at? place = some .folder

theorem KeepsFolders.trans (hde : d.KeepsFolders e) (hef : e.KeepsFolders f) :
    d.KeepsFolders f where
  here_eq := hef.here_eq.trans hde.here_eq
  folder place hfolder := hef.folder place (hde.folder place hfolder)

theorem enter_of_keepsFolders (hkeeps : d.KeepsFolders e) {name : String}
    (h : d.enter place name = .ok other) : e.enter place name = .ok other := by
  unfold enter at h ⊢
  split at h
  · cases h
  · cases h
  · rename_i hfolder
    rw [hkeeps.folder place hfolder]
    exact h

theorem walk_of_keepsFolders (hkeeps : d.KeepsFolders e) {names : List String} {start : Place}
    (h : names.foldlM d.enter start = .ok place) : names.foldlM e.enter start = .ok place := by
  induction names generalizing start with
  | nil => exact h
  | cons name rest ih =>
    rw [List.foldlM_cons] at h ⊢
    cases hnext : d.enter start name with
    | error o => rw [hnext] at h; cases h
    | ok next =>
      rw [hnext] at h
      rw [enter_of_keepsFolders hkeeps hnext]
      exact ih h

/-- A path that leads somewhere still leads there when folders are added. -/
theorem locate_of_keepsFolders (hkeeps : d.KeepsFolders e) (h : d.locate p = .ok place) :
    e.locate p = .ok place := by
  unfold locate at h ⊢
  rw [hkeeps.here_eq]
  split_ifs at h ⊢
  · exact walk_of_keepsFolders hkeeps h
  · exact walk_of_keepsFolders hkeeps h

theorem isFolder_iff :
    d.isFolder p ↔ ∃ place, d.locate p = .ok place ∧ d.at? place = some .folder := by
  unfold isFolder find
  cases hplace : d.locate p with
  | error o => simp [bind, Except.bind, Except.toOption]
  | ok place =>
    cases hentry : d.at? place with
    | none => simp [bind, Except.bind, Except.toOption, hentry]
    | some entry =>
      cases entry with
      | folder => simp [bind, Except.bind, Except.toOption, hentry]
      | file content => by_cases hslash : p.endsInSlash <;>
          simp [bind, Except.bind, Except.toOption, hentry, hslash]

theorem isFolder_of_keepsFolders (hkeeps : d.KeepsFolders e) (h : d.isFolder p) : e.isFolder p := by
  obtain ⟨place, hplace, hfolder⟩ := isFolder_iff.mp h
  exact isFolder_iff.mpr ⟨place, locate_of_keepsFolders hkeeps hplace, hkeeps.folder place hfolder⟩

/-- Both disks have the same folders. -/
structure SameFolders (d e : Disk) : Prop where
  here_eq : e.here = d.here
  folder_iff : ∀ place, e.at? place = some .folder ↔ d.at? place = some .folder

theorem SameFolders.symm (h : d.SameFolders e) : e.SameFolders d :=
  ⟨h.here_eq.symm, fun place ↦ (h.folder_iff place).symm⟩

theorem SameFolders.trans (hde : d.SameFolders e) (hef : e.SameFolders f) : d.SameFolders f :=
  ⟨hef.here_eq.trans hde.here_eq, fun place ↦ (hef.folder_iff place).trans (hde.folder_iff place)⟩

theorem SameFolders.noting (h : d.SameFolders e) (change : Change) :
    d.SameFolders (e.noting change) :=
  ⟨h.here_eq, h.folder_iff⟩

theorem SameFolders.keepsFolders (h : d.SameFolders e) : d.KeepsFolders e :=
  ⟨h.here_eq, fun place ↦ (h.folder_iff place).mpr⟩

theorem sameFolders_put (content : List UInt8) (h : d.at? place ≠ some .folder) :
    d.SameFolders (d.put place (.file content)) where
  here_eq := rfl
  folder_iff other := by
    rw [at?_put]
    split_ifs with hprefix heq
    · simp [at?_of_isPrefixOf hprefix]
    · simp [heq, h]
    · rfl

theorem sameFolders_without (h : d.at? place ≠ some .folder) :
    d.SameFolders (d.without (· = place)) where
  here_eq := rfl
  folder_iff other := by
    rw [at?_without]
    split_ifs with hprefix heq
    · simp [at?_of_isPrefixOf hprefix]
    · rw [of_decide_eq_true heq]
      simp [h]
    · rfl

/-- Nothing of a disk is different on another disk. -/
structure Extends (d e : Disk) : Prop where
  here_eq : e.here = d.here
  entry : ∀ place entry, d.at? place = some entry → e.at? place = some entry

theorem Extends.refl (d : Disk) : d.Extends d := ⟨rfl, fun _ _ h ↦ h⟩

theorem Extends.trans (hde : d.Extends e) (hef : e.Extends f) : d.Extends f where
  here_eq := hef.here_eq.trans hde.here_eq
  entry place entry hentry := hef.entry place entry (hde.entry place entry hentry)

theorem Extends.noting (h : d.Extends e) (change : Change) : d.Extends (e.noting change) :=
  ⟨h.here_eq, h.entry⟩

theorem Extends.keepsFolders (h : d.Extends e) : d.KeepsFolders e :=
  ⟨h.here_eq, fun place hfolder ↦ h.entry place .folder hfolder⟩

theorem extends_put_folder (h : d.at? place = none) : d.Extends (d.put place .folder) where
  here_eq := rfl
  entry other entry hentry := by
    rw [at?_put]
    split_ifs with hprefix heq
    · rwa [at?_of_isPrefixOf hprefix] at hentry
    · rw [heq, h] at hentry
      cases hentry
    · exact hentry

/-! ## Files -/

/-- Whether a path leads to a place that a file can be written to. -/
def Accepts (d : Disk) (p : FilePath) (place : Place) : Prop :=
  d.locate p = .ok place ∧ ¬ p.endsInSlash ∧ d.at? place ≠ some .folder

theorem Accepts.of_sameFolders (h : d.Accepts p place) (hsame : d.SameFolders e) :
    e.Accepts p place :=
  ⟨locate_of_keepsFolders hsame.keepsFolders h.1, h.2.1,
    fun hfolder ↦ h.2.2 ((hsame.folder_iff place).mp hfolder)⟩

theorem at?_put_of_accepts (content : List UInt8) (h : d.Accepts p place) :
    (d.put place (.file content)).at? place = some (.file content) := by
  have hprefix : ¬ place.isPrefixOf d.here := fun hprefix ↦ h.2.2 (at?_of_isPrefixOf hprefix)
  rw [at?_put_self, if_neg hprefix]

/-- A file is read where a path leads. -/
theorem read_eq_ok {content : List UInt8} (h : d.Accepts p place)
    (hfile : d.at? place = some (.file content)) : d.read p = .ok content := by
  simp [read, find, h.1, h.2.1, hfile, bind, Except.bind]

/-- What is read lies where the path leads. -/
theorem accepts_of_read {content : List UInt8} (h : d.read p = .ok content) :
    ∃ place, d.Accepts p place ∧ d.at? place = some (.file content) := by
  rw [read] at h
  obtain ⟨entry, hfind, hcontent⟩ := bind_eq_ok.mp h
  rw [find] at hfind
  obtain ⟨place, hplace, hentry⟩ := bind_eq_ok.mp hfind
  refine ⟨place, ?_⟩
  cases hat : d.at? place with
  | none =>
    rw [hat] at hentry
    cases hentry
  | some found =>
    rw [hat] at hentry
    cases found with
    | folder =>
      cases hentry
      cases hcontent
    | file bytes =>
      by_cases hslash : p.endsInSlash
      · simp only [if_pos hslash] at hentry
        cases hentry
      · simp only [if_neg hslash] at hentry
        cases hentry
        cases hcontent
        exact ⟨⟨hplace, hslash, by rw [hat]; nofun⟩, rfl⟩

theorem read_of_extends {content : List UInt8} (h : d.Extends e) (hread : d.read p = .ok content) :
    e.read p = .ok content := by
  obtain ⟨place, haccepts, hfile⟩ := accepts_of_read hread
  have hplace : e.at? place = some (.file content) := h.entry place _ hfile
  refine read_eq_ok ⟨locate_of_keepsFolders h.keepsFolders haccepts.1, haccepts.2.1, ?_⟩ hplace
  rw [hplace]
  nofun

end Disk

namespace DiskOp

open Disk

variable {α : Type} {d e f : Disk} {p q : FilePath} {source target : Place}
  {content : List UInt8}

/-! ## Single operations -/

theorem look_run {α : Type} (f : Disk → Except Obstacle α) (d : Disk) :
    (look f).run d = match f d with
      | .ok a => .ok a d
      | .error o => .error o d := by
  rw [look, EStateM.run_bind, EStateM.run_get]
  dsimp only
  cases f d <;> rfl

theorem write_run (p : FilePath) (content : List UInt8) (d : Disk) :
    (write p content).run d = match d.locate p with
      | .error o => .error o d
      | .ok place =>
        if p.endsInSlash ∨ d.at? place = some .folder then .error .isFolder d
        else .ok () ((d.put place (.file content)).noting (.wrote place content)) := by
  rw [write, EStateM.run_bind, look_run]
  cases d.locate p with
  | error o => rfl
  | ok place =>
    dsimp only
    split_ifs with hslash <;> simp_all [EStateM.run_bind]

theorem makeFolder_run (p : FilePath) (d : Disk) :
    (makeFolder p).run d = match d.locate p with
      | .error o => .error o d
      | .ok place =>
        if (d.at? place).isSome then .error .occupied d
        else .ok () ((d.put place .folder).noting (.madeFolder place)) := by
  rw [makeFolder, EStateM.run_bind, look_run]
  cases d.locate p with
  | error o => rfl
  | ok place =>
    dsimp only
    rw [EStateM.run_bind, EStateM.run_get]
    cases hentry : d.at? place <;> simp [hentry]

theorem move_run (p q : FilePath) (d : Disk) :
    (move p q).run d = match d.locate p, d.read p, d.locate q with
      | .error o, _, _ | _, .error o, _ | _, _, .error o => .error o d
      | .ok source, .ok content, .ok target =>
        if q.endsInSlash then .error .notFolder d
        else if d.at? target = some .folder then .error .isFolder d
        else .ok () (((d.without (· = source)).put target (.file content)).noting
          (.moved source target)) := by
  rw [move, EStateM.run_bind, look_run]
  cases d.locate p with
  | error o => rfl
  | ok source =>
    dsimp only
    rw [EStateM.run_bind, look_run]
    cases d.read p with
    | error o => rfl
    | ok content =>
      dsimp only
      rw [EStateM.run_bind, look_run]
      cases d.locate q with
      | error o => rfl
      | ok target =>
        dsimp only
        split_ifs with hslash <;> simp_all [EStateM.run_bind]

theorem tryCatch_run {α : Type} (op : DiskOp α) (handle : Obstacle → DiskOp α) (d : Disk) :
    (tryCatch op handle : DiskOp α).run d = match op.run d with
      | .ok a e => .ok a e
      | .error o e => (handle o).run e := by
  change EStateM.tryCatch op handle d = _
  unfold EStateM.tryCatch
  change _ = match op d with | .ok a e => _ | .error o e => _
  cases op d <;> rfl

theorem ensureFolder_run (p : FilePath) (d : Disk) :
    (ensureFolder p).run d = match (makeFolder p).run d with
      | .ok _ e => .ok () e
      | .error o e => if e.isFolder p then .ok () e else .error o e := by
  rw [ensureFolder, tryCatch_run]
  cases (makeFolder p).run d with
  | ok _ e => rfl
  | error o e =>
    dsimp only
    rw [EStateM.run_bind, EStateM.run_get]
    split_ifs with hfolder <;> simp [hfolder]

theorem makeFoldersUpTo_run (p : FilePath) (steps : Nat) (d : Disk) :
    (makeFoldersUpTo p (steps + 1)).run d =
      if p.text = "" then .ok () d
      else match (ensureFolder p).run d with
        | .ok _ e => .ok () e
        | .error o e =>
          if o ≠ .missing then .error o e
          else match p.parent? with
            | none => .error o e
            | some folder => match (makeFoldersUpTo folder steps).run e with
              | .ok _ f => (ensureFolder p).run f
              | .error o f => .error o f := by
  rw [makeFoldersUpTo]
  split_ifs with hempty
  · rfl
  · rw [tryCatch_run]
    cases (ensureFolder p).run d with
    | ok _ e => rfl
    | error o e =>
      dsimp only
      split_ifs with hmissing
      · rfl
      · cases p.parent? with
        | none => rfl
        | some folder =>
          dsimp only
          rw [EStateM.run_bind]
          cases (makeFoldersUpTo folder steps).run e <;> rfl

/-! ## Making folders -/

/-- The disk that an operation leaves behind, whether or not an obstacle ends it. -/
def leaves (op : DiskOp α) (d : Disk) : Disk :=
  match op.run d with
  | .ok _ e => e
  | .error _ e => e

theorem leaves_of_ok {op : DiskOp α} {a : α} (h : op.run d = .ok a e) : leaves op d = e := by
  rw [leaves, h]

theorem leaves_of_error {op : DiskOp α} {o : Obstacle} (h : op.run d = .error o e) :
    leaves op d = e := by
  rw [leaves, h]

theorem extends_makeFolder (p : FilePath) (d : Disk) : d.Extends (leaves (makeFolder p) d) := by
  rw [leaves, makeFolder_run]
  cases d.locate p with
  | error o => exact .refl d
  | ok place =>
    cases hentry : d.at? place with
    | none => simpa [hentry] using (extends_put_folder hentry).noting (.madeFolder place)
    | some entry => simpa [hentry] using Extends.refl d

theorem extends_ensureFolder (p : FilePath) (d : Disk) :
    d.Extends (leaves (ensureFolder p) d) := by
  have hmade := extends_makeFolder p d
  rw [leaves, ensureFolder_run]
  rw [leaves] at hmade
  cases hrun : (makeFolder p).run d with
  | ok _ e => rwa [hrun] at hmade
  | error o e =>
    rw [hrun] at hmade
    by_cases hfolder : e.isFolder p <;> simpa [hfolder] using hmade

/-- What making one folder does to the disk, making it with those above it does, too. -/
theorem makeFoldersUpTo_induction (motive : Disk → Disk → Prop) (allowed : FilePath → Prop)
    (refl : ∀ d, motive d d) (trans : ∀ d e f, motive d e → motive e f → motive d f)
    (ensure : ∀ p d, allowed p → motive d (leaves (ensureFolder p) d))
    (parent : ∀ p folder, allowed p → p.parent? = some folder → allowed folder)
    (steps : Nat) (p : FilePath) (d : Disk) (h : allowed p) :
    motive d (leaves (makeFoldersUpTo p steps) d) := by
  induction steps generalizing p d with
  | zero => exact refl d
  | succ steps ih =>
    rw [leaves, makeFoldersUpTo_run]
    split_ifs with hempty
    · exact refl d
    · have hfirst := ensure p d h
      rw [leaves] at hfirst
      cases hrun : (ensureFolder p).run d with
      | ok _ e => rwa [hrun] at hfirst
      | error o e =>
        rw [hrun] at hfirst
        dsimp only
        split_ifs with hmissing
        · exact hfirst
        · cases hparent : p.parent? with
          | none => exact hfirst
          | some folder =>
            have habove := ih folder e (parent p folder h hparent)
            rw [leaves] at habove
            dsimp only
            cases hrun : (makeFoldersUpTo folder steps).run e with
            | error o f =>
              rw [hrun] at habove
              exact trans d e f hfirst habove
            | ok _ f =>
              rw [hrun] at habove
              exact trans d f _ (trans d e f hfirst habove) (ensure p f h)

/-- Making folders changes nothing that is there. -/
theorem extends_makeFoldersUpTo (steps : Nat) (p : FilePath) (d : Disk) :
    d.Extends (leaves (makeFoldersUpTo p steps) d) :=
  makeFoldersUpTo_induction Extends (fun _ ↦ True) Extends.refl (fun _ _ _ ↦ Extends.trans)
    (fun p d _ ↦ extends_ensureFolder p d) (fun _ _ _ _ ↦ trivial) steps p d trivial

theorem ensureFolder_of_isFolder (h : d.isFolder p) : (ensureFolder p).run d = .ok () d := by
  obtain ⟨place, hplace, hfolder⟩ := isFolder_iff.mp h
  rw [ensureFolder_run, makeFolder_run, hplace]
  simp [hfolder, h]

theorem isFolder_of_ensureFolder (h : (ensureFolder p).run d = .ok () e) : e.isFolder p := by
  rw [ensureFolder_run, makeFolder_run] at h
  cases hplace : d.locate p with
  | error o =>
    rw [hplace] at h
    by_cases hfolder : d.isFolder p
    · obtain rfl : d = e := by simpa [hfolder] using h
      exact hfolder
    · simp [hfolder] at h
  | ok place =>
    rw [hplace] at h
    cases hentry : d.at? place with
    | none =>
      obtain rfl : (d.put place .folder).noting (.madeFolder place) = e := by simpa [hentry] using h
      have hextends := (extends_put_folder hentry).noting (.madeFolder place)
      refine isFolder_iff.mpr ⟨place, locate_of_keepsFolders hextends.keepsFolders hplace, ?_⟩
      rw [at?_noting, at?_put_self]
      split_ifs <;> rfl
    | some entry =>
      by_cases hfolder : d.isFolder p
      · obtain rfl : d = e := by simpa [hentry, hfolder] using h
        exact hfolder
      · simp [hentry, hfolder] at h

theorem makeFoldersUpTo_of_isFolder (h : d.isFolder p) (steps : Nat) :
    (makeFoldersUpTo p steps).run d = .ok () d := by
  cases steps with
  | zero => rfl
  | succ steps =>
    rw [makeFoldersUpTo_run, ensureFolder_of_isFolder h]
    split_ifs <;> rfl

theorem makeFoldersUpTo_of_empty (h : p.text = "") (steps : Nat) :
    (makeFoldersUpTo p steps).run d = .ok () d := by
  cases steps with
  | zero => rfl
  | succ steps => rw [makeFoldersUpTo_run, if_pos h]

theorem makeFolders_of_isFolder (h : d.isFolder p) : (makeFolders p).run d = .ok () d :=
  makeFoldersUpTo_of_isFolder h _

theorem makeFolders_of_empty (h : p.text = "") : (makeFolders p).run d = .ok () d :=
  makeFoldersUpTo_of_empty h _

theorem isFolder_of_makeFoldersUpTo {steps : Nat} (hempty : p.text ≠ "")
    (h : (makeFoldersUpTo p (steps + 1)).run d = .ok () e) : e.isFolder p := by
  rw [makeFoldersUpTo_run, if_neg hempty] at h
  cases hrun : (ensureFolder p).run d with
  | ok _ f =>
    rw [hrun] at h
    obtain rfl : f = e := by simpa using h
    exact isFolder_of_ensureFolder hrun
  | error o f =>
    rw [hrun] at h
    dsimp only at h
    split_ifs at h with hmissing
    cases hparent : p.parent? with
    | none => rw [hparent] at h; cases h
    | some folder =>
      rw [hparent] at h
      dsimp only at h
      split at h
      · exact isFolder_of_ensureFolder h
      · cases h

/-- Where folders have been made there is a folder. -/
theorem isFolder_of_makeFolders (hempty : p.text ≠ "") (h : (makeFolders p).run d = .ok () e) :
    e.isFolder p :=
  isFolder_of_makeFoldersUpTo hempty h

/-! ## Writing and moving files -/

theorem write_eq_ok : (write p content).run d = .ok () e ↔
    ∃ place, d.Accepts p place ∧
      e = (d.put place (.file content)).noting (.wrote place content) := by
  rw [write_run]
  cases hplace : d.locate p with
  | error o => simp [Accepts, hplace]
  | ok place =>
    dsimp only
    split_ifs with hrefused
    · simp only [Accepts, hplace, Except.ok.injEq, false_iff]
      rintro ⟨_, ⟨rfl, hslash, hfolder⟩, -⟩
      exact hrefused.elim hslash hfolder
    · constructor
      · intro h
        exact ⟨place, ⟨hplace, not_or.mp hrefused⟩, by simpa [eq_comm] using h⟩
      · rintro ⟨other, ⟨hother, -⟩, rfl⟩
        obtain rfl := Except.ok.inj (hplace.symm.trans hother)
        rfl

theorem move_eq_ok : (move p q).run d = .ok () e ↔
    ∃ source content target, d.locate p = .ok source ∧ d.read p = .ok content ∧
      d.Accepts q target ∧
      e = ((d.without (· = source)).put target (.file content)).noting (.moved source target) := by
  rw [move_run]
  cases hsource : d.locate p with
  | error o => simp
  | ok source =>
    cases hcontent : d.read p with
    | error o => simp
    | ok content =>
      cases htarget : d.locate q with
      | error o => simp [Accepts, htarget]
      | ok target =>
        dsimp only
        split_ifs with hslash hfolder
        · simp [Accepts, hslash]
        · simp [Accepts, htarget, hfolder]
        · constructor
          · intro h
            exact ⟨source, content, target, rfl, rfl, ⟨htarget, hslash, hfolder⟩,
              by simpa [eq_comm] using h⟩
          · rintro ⟨_, _, other, hsource, hcontent, ⟨hother, -⟩, rfl⟩
            obtain rfl := Except.ok.inj hsource
            obtain rfl := Except.ok.inj hcontent
            obtain rfl := Except.ok.inj (htarget.symm.trans hother)
            rfl

/-- A file that cannot be written leaves no trace. -/
theorem eq_of_write_error {o : Obstacle} (h : (write p content).run d = .error o e) : e = d := by
  rw [write_run] at h
  split at h
  · cases h
    rfl
  · split_ifs at h
    cases h
    rfl

/-- A file that cannot be moved stays, and leaves no trace. -/
theorem eq_of_move_error {o : Obstacle} (h : (move p q).run d = .error o e) : e = d := by
  rw [move_run] at h
  split at h
  · cases h
    rfl
  · cases h
    rfl
  · cases h
    rfl
  · split_ifs at h
    · cases h
      rfl
    · cases h
      rfl

/-- What it comes to when a draft is written at a path and moved to another one. -/
structure Publishes (d : Disk) (p q : FilePath) (content : List UInt8) (f : Disk) : Prop where
  accepts_draft : ∃ place, d.Accepts p place
  accepts_target : ∃ place, d.Accepts q place
  sameFolders : d.SameFolders f
  read_eq : f.read q = .ok content

theorem publishes (hwrite : (write p content).run d = .ok () e)
    (hmove : (move p q).run e = .ok () f) : Publishes d p q content f := by
  obtain ⟨source, hsource, he⟩ := write_eq_ok.mp hwrite
  have hde : d.SameFolders e := he ▸ (sameFolders_put content hsource.2.2).noting _
  have hesource : e.Accepts p source := hsource.of_sameFolders hde
  have hfile : e.at? source = some (.file content) := by
    rw [he, at?_noting, at?_put_of_accepts content hsource]
  obtain ⟨source', content', target, hsource', hcontent', htarget, hf⟩ := move_eq_ok.mp hmove
  obtain rfl : source = source' := Except.ok.inj (hesource.1.symm.trans hsource')
  obtain rfl : content = content' :=
    Except.ok.inj ((read_eq_ok hesource hfile).symm.trans hcontent')
  have hwithout := sameFolders_without hesource.2.2
  have hput := sameFolders_put content (htarget.of_sameFolders hwithout).2.2
  have hef : e.SameFolders f := hf ▸ (hwithout.trans hput).noting _
  refine ⟨⟨source, hsource⟩, ⟨target, htarget.of_sameFolders hde.symm⟩, hde.trans hef, ?_⟩
  apply read_eq_ok (htarget.of_sameFolders hef)
  rw [hf, at?_noting, at?_put_of_accepts content (htarget.of_sameFolders hwithout)]

/-- A draft that is written and moved changes the places that it and the file have, and is gone. -/
theorem entries_of_write_move (hwrite : (write p content).run d = .ok () e)
    (hmove : (move p q).run e = .ok () f) :
    ∃ source target, d.Accepts p source ∧ d.Accepts q target ∧ d.SameFolders f ∧
      (∀ place, place ≠ source → place ≠ target → f.at? place = d.at? place) ∧
      (source ≠ target → f.at? source = none) := by
  obtain ⟨source, hsource, he⟩ := write_eq_ok.mp hwrite
  have hde : d.SameFolders e := he ▸ (sameFolders_put content hsource.2.2).noting _
  have hesource : e.Accepts p source := hsource.of_sameFolders hde
  obtain ⟨source', content', target, hsource', -, htarget, hf⟩ := move_eq_ok.mp hmove
  obtain rfl : source = source' := Except.ok.inj (hesource.1.symm.trans hsource')
  have hwithout := sameFolders_without hesource.2.2
  have hput := sameFolders_put content' (htarget.of_sameFolders hwithout).2.2
  have hef : e.SameFolders f := hf ▸ (hwithout.trans hput).noting _
  refine ⟨source, target, hsource, htarget.of_sameFolders hde.symm, hde.trans hef, ?_, ?_⟩
  · intro place hplace hplace'
    rw [hf, at?_noting, at?_put_of_ne hplace', at?_without_of_ne hplace, he, at?_noting,
      at?_put_of_ne hplace]
  · intro hne
    have hhere : ¬ source.isPrefixOf e.here := fun hprefix ↦
      hesource.2.2 (at?_of_isPrefixOf hprefix)
    rw [hf, at?_noting, at?_put_of_ne hne, at?_without, if_neg hhere]
    simp

/-- Where there is room for a draft and for the file, nothing keeps the draft from being written and
moved into place. -/
theorem publishes_of_accepts (content : List UInt8) (hsource : d.Accepts p source)
    (htarget : d.Accepts q target) :
    ∃ e f, (write p content).run d = .ok () e ∧ (move p q).run e = .ok () f := by
  have hsame := (sameFolders_put content hsource.2.2).noting (.wrote source content)
  have hread := read_eq_ok (hsource.of_sameFolders hsame) (at?_put_of_accepts content hsource)
  exact ⟨_, _, write_eq_ok.mpr ⟨source, hsource, rfl⟩,
    move_eq_ok.mpr ⟨source, content, target, (hsource.of_sameFolders hsame).1, hread,
      htarget.of_sameFolders hsame, rfl⟩⟩

end DiskOp

end CloudLedger.Files
