import CloudLedger.Proofs.Folders
import Mathlib.Logic.Relation

/-!
# Above a path

Making the folders above a path changes nothing but that some of them are there.  A path that leads
somewhere has folders all the way down, and where it leads to a file it did so before the folders
were made, unless it goes up again on its way.  Nothing but a file in the place of a folder keeps
the folders above a plain path from being made.
-/

namespace CloudLedger.Files

/-- Whether a folder lies above a path: the path lies in it, or in one that it lies above. -/
def FilePath.IsAbove : FilePath → FilePath → Prop :=
  Relation.TransGen fun folder p ↦ p.parent? = some folder

namespace Disk

variable {d e f : Disk} {p folder : FilePath} {name : String} {place above other start : Place}
  {names : List String} {content : List UInt8}

/-! ## What is made -/

/-- Whether one of some folders has been made at a place. -/
structure MadeAmong (allowed : FilePath → Prop) (d e : Disk) (place : Place) : Prop where
  nothing : d.at? place = none
  folder : e.at? place = some .folder
  leads : ∃ folder, allowed folder ∧ e.locate folder = .ok place

/-- Whether all that another disk has more are some of these folders. -/
structure AddsFolders (allowed : FilePath → Prop) (d e : Disk) : Prop where
  keeps : d.Extends e
  made : ∀ place, e.at? place = d.at? place ∨ MadeAmong allowed d e place

section Among

variable {allowed : FilePath → Prop}

theorem MadeAmong.of_keepsFolders (h : MadeAmong allowed d e place) (hkeeps : e.KeepsFolders f) :
    MadeAmong allowed d f place where
  nothing := h.nothing
  folder := hkeeps.folder place h.folder
  leads :=
    have ⟨folder, hallowed, hplace⟩ := h.leads
    ⟨folder, hallowed, locate_of_keepsFolders hkeeps hplace⟩

theorem AddsFolders.refl (allowed : FilePath → Prop) (d : Disk) : AddsFolders allowed d d :=
  ⟨.refl d, fun _ ↦ .inl rfl⟩

theorem AddsFolders.trans (hde : AddsFolders allowed d e) (hef : AddsFolders allowed e f) :
    AddsFolders allowed d f where
  keeps := hde.keeps.trans hef.keeps
  made place := by
    rcases hde.made place with hsame | hmade
    · rcases hef.made place with hsame' | ⟨hnone, hfolder, hleads⟩
      · exact .inl (hsame'.trans hsame)
      · exact .inr ⟨hsame.symm.trans hnone, hfolder, hleads⟩
    · exact .inr (hmade.of_keepsFolders hef.keeps.keepsFolders)

theorem addsFolders_ensureFolder (hallowed : allowed folder) (d : Disk) :
    AddsFolders allowed d (DiskOp.leaves (DiskOp.ensureFolder folder) d) := by
  refine ⟨DiskOp.extends_ensureFolder folder d, fun other ↦ ?_⟩
  have hkeeps := DiskOp.extends_ensureFolder folder d
  rw [DiskOp.leaves, DiskOp.ensureFolder_run, DiskOp.makeFolder_run] at hkeeps ⊢
  cases hplace : d.locate folder with
  | error o => by_cases hfolder : d.isFolder folder <;> simp [hfolder]
  | ok place =>
    cases hentry : d.at? place with
    | some entry => by_cases hfolder : d.isFolder folder <;> simp [hentry, hfolder]
    | none =>
      simp only [hplace, hentry, Option.isSome_none, Bool.false_eq_true, if_false] at hkeeps ⊢
      by_cases hother : other = place
      · subst hother
        have hleads := locate_of_keepsFolders hkeeps.keepsFolders hplace
        refine .inr ⟨hentry, ?_, folder, hallowed, hleads⟩
        rw [at?_noting, at?_put_self]
        split_ifs <;> rfl
      · left
        rw [at?_noting, at?_put_of_ne hother]

variable (allowed) in
/-- Making a folder adds only folders among those that it, and what lies above it, belong to. -/
theorem addsFolders_makeFoldersUpTo (hallowed : allowed folder)
    (hparent : ∀ p above, allowed p → p.parent? = some above → allowed above) (steps : Nat)
    (d : Disk) : AddsFolders allowed d (DiskOp.leaves (DiskOp.makeFoldersUpTo folder steps) d) := by
  apply DiskOp.makeFoldersUpTo_induction (AddsFolders allowed) allowed
  · exact AddsFolders.refl allowed
  · exact fun d e f ↦ AddsFolders.trans
  · exact fun folder d hallowed ↦ addsFolders_ensureFolder hallowed d
  · exact hparent
  · exact hallowed

end Among

/-- Whether a folder above a path has been made at a place. -/
structure MadeAt (p : FilePath) (d e : Disk) (place : Place) : Prop where
  nothing : d.at? place = none
  folder : e.at? place = some .folder
  above : ∃ folder : FilePath, folder.IsAbove p ∧ e.locate folder = .ok place

theorem madeAt_iff : MadeAt p d e place ↔ MadeAmong (·.IsAbove p) d e place :=
  ⟨fun h ↦ ⟨h.nothing, h.folder, h.above⟩, fun h ↦ ⟨h.nothing, h.folder, h.leads⟩⟩

theorem MadeAt.of_keepsFolders (h : MadeAt p d e place) (hkeeps : e.KeepsFolders f) :
    MadeAt p d f place :=
  madeAt_iff.mpr ((madeAt_iff.mp h).of_keepsFolders hkeeps)

/-- Whether all that another disk has more are folders above a path. -/
structure MadeAbove (p : FilePath) (d e : Disk) : Prop where
  keeps : d.Extends e
  made : ∀ place, e.at? place = d.at? place ∨ MadeAt p d e place

theorem MadeAbove.refl (p : FilePath) (d : Disk) : MadeAbove p d d := ⟨.refl d, fun _ ↦ .inl rfl⟩

theorem madeAbove_makeFoldersUpTo (habove : folder.IsAbove p) (steps : Nat) (d : Disk) :
    MadeAbove p d (DiskOp.leaves (DiskOp.makeFoldersUpTo folder steps) d) := by
  have hparent (q above : FilePath) (hq : q.IsAbove p) (habove : q.parent? = some above) :
      above.IsAbove p := .head habove hq
  have hadds := addsFolders_makeFoldersUpTo (·.IsAbove p) habove hparent steps d
  exact ⟨hadds.keeps, fun place ↦ (hadds.made place).imp_right madeAt_iff.mpr⟩

/-! ## The way down -/

/-- What every step of a walk keeps, the walk keeps. -/
theorem walk_induction {motive : Place → Prop} (hstart : motive start)
    (hstep : ∀ place name next, motive place → d.enter place name = .ok next → motive next)
    (h : names.foldlM d.enter start = .ok place) : motive place := by
  induction names generalizing start with
  | nil =>
    cases h
    exact hstart
  | cons name rest ih =>
    obtain ⟨next, hnext, hrest⟩ := walk_cons_eq_ok.mp h
    exact ih (hstep start name next hstart hnext) hrest

/-- Whether there are folders all the way down to a place. -/
def IsReached (d : Disk) (place : Place) : Prop :=
  ∀ above, above <+: place → above ≠ place → d.at? above = some .folder

theorem IsReached.enter (h : d.IsReached place) (hnext : d.enter place name = .ok other) :
    d.IsReached other := by
  have hfolder := folder_of_enter hnext
  intro above habove hne
  rcases enter_cases hnext with ⟨-, rfl⟩ | ⟨-, rfl⟩ | ⟨-, -, rfl⟩
  · exact h above habove hne
  · by_cases heq : above = place
    · rwa [heq]
    · exact h above (habove.trans (List.dropLast_prefix place)) heq
  · rcases List.prefix_concat_iff.mp habove with heq | hprefix
    · exact absurd heq hne
    · by_cases heq : above = place
      · rwa [heq]
      · exact h above hprefix heq

theorem at?_of_prefix_start (d : Disk) (p : FilePath)
    (h : above <+: if p.isAbsolute then [] else d.here) : d.at? above = some .folder := by
  apply at?_of_isPrefixOf
  rw [List.isPrefixOf_iff_prefix]
  split_ifs at h
  · exact h.trans List.nil_prefix
  · exact h

theorem isReached_start (d : Disk) (p : FilePath) :
    d.IsReached (if p.isAbsolute then [] else d.here) :=
  fun _ habove _ ↦ at?_of_prefix_start d p habove

/-- A walk along a path goes through folders only. -/
theorem isReached_of_walk
    (h : names.foldlM d.enter (if p.isAbsolute then [] else d.here) = .ok place) :
    d.IsReached place :=
  walk_induction (isReached_start d p) (fun _ _ _ ↦ IsReached.enter) h

theorem isFolder_dropLast (h : d.IsReached place) (hfolder : d.at? place = some .folder) :
    d.at? place.dropLast = some .folder := by
  by_cases heq : place.dropLast = place
  · rwa [heq]
  · exact h _ (List.dropLast_prefix place) heq

/-- A path without a file name leads to a folder, if anywhere. -/
theorem folder_of_fileName?_none (hname : p.fileName? = none) (h : d.locate p = .ok place) :
    d.at? place = some .folder := by
  obtain ⟨-, -, -, hwalk⟩ := locate_eq_ok.mp h
  have hspecial : p.last ∈ ["", ".", ".."] := by
    by_contra hplain
    rw [FilePath.fileName?_eq, if_neg hplain] at hname
    cases hname
  by_cases hup : p.last = ".."
  · obtain ⟨dots, hnames, hdots⟩ := FilePath.names_eq_front_last (p := p) (by simp [hup])
    rw [hnames, walk_append_eq_ok] at hwalk
    obtain ⟨middle, hmiddle, hrest⟩ := hwalk
    obtain ⟨next, hnext, hend⟩ := walk_cons_eq_ok.mp hrest
    rw [eq_of_walk_dots hdots hend]
    rcases enter_cases hnext with ⟨hdot, -⟩ | ⟨-, rfl⟩ | ⟨-, hne, -⟩
    · simp [hup] at hdot
    · exact isFolder_dropLast (isReached_of_walk hmiddle) (folder_of_enter hnext)
    · exact absurd hup hne
  · have hsilent : FilePath.IsSilent p.last := by
      rw [FilePath.IsSilent]
      simpa [hup] using hspecial
    obtain ⟨silent, hpieces, hsilents⟩ := p.pieces_eq
    rcases p.spine_cases with ⟨-, hfront⟩ | ⟨_, _, -, -, hlast⟩
    · have hdots : ∀ dot ∈ p.names, dot = "." := by
        rw [FilePath.names_eq, hpieces, hfront, List.nil_append]
        exact FilePath.spoken_silent (List.forall_mem_cons.mpr ⟨hsilent, hsilents⟩)
      rw [eq_of_walk_dots hdots hwalk]
      exact at?_of_prefix_start d p List.prefix_rfl
    · exact absurd hsilent hlast

theorem Accepts.exists_fileName (h : d.Accepts p place) : ∃ name, p.fileName? = some name := by
  cases hname : p.fileName? with
  | some name => exact ⟨name, rfl⟩
  | none => exact absurd (folder_of_fileName?_none hname h.1) h.2.2

/-! ## Where a file is -/

theorem IsConnected.ne_none_of_prefix (h : d.IsConnected) (habove : above <+: place)
    (hsome : d.at? place ≠ none) : d.at? above ≠ none := by
  obtain ⟨rest, rfl⟩ := habove
  induction rest using List.reverseRecOn with
  | nil => rwa [List.append_nil] at hsome
  | append_singleton rest name ih =>
    apply ih
    intro hnone
    rw [← List.append_assoc] at hsome
    exact hsome (h _ name hnone)

theorem prefix_of_walk (hup : ".." ∉ names) (h : names.foldlM d.enter start = .ok place) :
    start <+: place := by
  induction names generalizing start with
  | nil =>
    cases h
    exact List.prefix_rfl
  | cons name rest ih =>
    obtain ⟨next, hnext, hrest⟩ := walk_cons_eq_ok.mp h
    rw [List.mem_cons, not_or] at hup
    obtain ⟨hname, hup⟩ := hup
    refine List.IsPrefix.trans ?_ (ih hup hrest)
    rcases enter_cases hnext with ⟨-, rfl⟩ | ⟨heq, -⟩ | ⟨-, -, rfl⟩
    · exact List.prefix_rfl
    · exact absurd heq.symm hname
    · exact List.prefix_append start [name]

/-- A walk to a file that was there before goes as it went before. -/
theorem walk_of_extends (hextends : d.Extends e) (hconnected : d.IsConnected)
    (hup : ".." ∉ names) (hfile : d.at? place = some (.file content))
    (h : names.foldlM e.enter start = .ok place) : names.foldlM d.enter start = .ok place := by
  induction names generalizing start with
  | nil => exact h
  | cons name rest ih =>
    obtain ⟨next, hnext, hrest⟩ := walk_cons_eq_ok.mp h
    have hmade : e.at? start = some .folder := folder_of_enter hnext
    have hstart : d.at? start = some .folder := by
      have hsome : d.at? start ≠ none :=
        hconnected.ne_none_of_prefix (prefix_of_walk hup h) (by simp [hfile])
      obtain ⟨entry, hentry⟩ := Option.ne_none_iff_exists'.mp hsome
      rw [hentry, ← hmade, hextends.entry start entry hentry]
    rw [enter_congr (hmade.trans hstart.symm)] at hnext
    have hup' : ".." ∉ rest := fun hmem ↦ hup (List.mem_cons_of_mem name hmem)
    exact walk_cons_eq_ok.mpr ⟨next, hnext, ih hup' hrest⟩

/-- A path that does not go up leads to a file that was there before if and only if it did
before. -/
theorem locate_of_extends (hextends : d.Extends e) (hconnected : d.IsConnected)
    (hup : ".." ∉ p.names) (hfile : d.at? place = some (.file content))
    (h : e.locate p = .ok place) : d.locate p = .ok place := by
  obtain ⟨hnull, hempty, hlong, hwalk⟩ := locate_eq_ok.mp h
  rw [hextends.here_eq] at hwalk
  exact locate_eq_ok.mpr
    ⟨hnull, hempty, hlong, walk_of_extends hextends hconnected hup hfile hwalk⟩

/-! ## Nothing in the way -/

/-- The place that a path leads down to. -/
def below (d : Disk) (p : FilePath) : Place :=
  (if p.isAbsolute then [] else d.here) ++ further p.names

/-- Where no file is in the way, a walk down fails only where there is nothing. -/
theorem walk_cases (hdown : LeadDown names)
    (hway : ∀ above, above <+: start ++ further names → ∀ content,
      d.at? above ≠ some (.file content)) :
    names.foldlM d.enter start = .ok (start ++ further names) ∨
      names.foldlM d.enter start = .error .missing := by
  induction names generalizing start with
  | nil =>
    left
    simp [further, pure, Except.pure]
  | cons name rest ih =>
    obtain ⟨hup, hsize⟩ := hdown name List.mem_cons_self
    rw [further_cons, ← List.append_assoc] at hway ⊢
    have hstart : start <+: start ++ further [name] ++ further rest := by
      rw [List.append_assoc]
      exact List.prefix_append ..
    rw [List.foldlM_cons]
    cases hentry : d.at? start with
    | none =>
      right
      rw [enter, hentry]
      rfl
    | some entry =>
      cases entry with
      | file content => exact absurd hentry (hway start hstart content)
      | folder =>
        rw [enter_of_folder hentry hup hsize]
        exact ih hdown.tail hway

/-! ### Plain paths -/

end Disk

namespace FilePath

variable {p folder : FilePath}

/-- Whether the system takes a path, and the path only leads down. -/
structure IsPlain (p : FilePath) : Prop where
  noNull : ¬ p.holdsNull
  short : size p.text ≤ longestPath
  down : LeadDown p.names

/-- Whether a path does not end in a dot, unless it is dots all along. -/
def IsTidy (p : FilePath) : Prop := p.names.getLast? = some "." → further p.names = []

theorem IsPlain.of_continues (hplain : p.IsPlain) (h : folder.Continues p) : folder.IsPlain := by
  obtain ⟨rest, htext⟩ := h.text_prefix
  refine ⟨fun hnull ↦ hplain.noNull ?_, ?_, hplain.down.of_continues h⟩
  · rw [holdsNull, List.contains_iff_mem] at hnull ⊢
    exact htext ▸ List.mem_append_left rest hnull
  · have hshort := hplain.short
    rw [size, Text.Utf8.encode, ← htext, List.flatMap_append, List.length_append] at hshort
    rw [size, Text.Utf8.encode]
    omega

/-- The folder that a path lies in does not end in a dot. -/
theorem isTidy_of_parent? (h : p.parent? = some folder) : folder.IsTidy := by
  intro hdot
  rcases parent?_cases h with ⟨rfl, -, -⟩ | ⟨first, init, rfl, hfront, -⟩
  · rfl
  · obtain ⟨silent, hinit, -⟩ := dropSilent_append init
    have hplain : ∀ name ∈ first :: dropSilent init, '/' ∉ name.toList := by
      intro name hname
      apply slash_not_mem_front (p := p)
      rw [hfront, hinit, ← List.cons_append]
      exact List.mem_append_left silent hname
    rw [names_ofSpine hplain] at hdot ⊢
    rcases List.eq_nil_or_concat' (dropSilent init) with hnil | ⟨before, name, hconcat⟩
    · rw [hnil] at hdot ⊢
      have hfirst := List.mem_of_getLast? hdot
      obtain ⟨hfirst, -⟩ := List.mem_filter.mp hfirst
      rw [← List.mem_singleton.mp hfirst]
      decide
    · obtain ⟨hempty, hname⟩ := not_or.mp (not_isSilent_of_dropSilent hconcat)
      rw [hconcat, ← List.cons_append, spoken_append, spoken_cons hempty,
        List.getLast?_append] at hdot
      have hlast : name = "." := by simpa [spoken] using hdot
      exact absurd hlast hname

theorem further_ne_nil {name : String} (h : p.fileName? = some name) : further p.names ≠ [] := by
  obtain ⟨rfl, hempty, hdot, -⟩ := last_of_fileName? h
  obtain ⟨dots, hnames, -⟩ := names_eq_front_last hempty
  rw [hnames, further_append, further_cons]
  simp [further, hdot]

theorem further_of_parent?_none (h : p.parent? = none) : further p.names = [] := by
  obtain ⟨silent, hpieces, hsilent⟩ := p.pieces_eq
  rcases p.spine_cases with ⟨hspine, hfront⟩ | ⟨first, init, hspine, -, -⟩
  · have hlast : p.last = "" := by
      rw [parent?, hspine] at h
      by_contra hne
      simp [hne] at h
    apply further_dots
    rw [names_eq, hpieces, hfront, hlast]
    exact spoken_silent (List.forall_mem_cons.mpr ⟨.inl rfl, hsilent⟩)
  · rw [parent?, hspine] at h
    cases hrest : init ++ [p.last] with
    | nil => simp at hrest
    | cons second rest =>
      rw [hrest] at h
      cases h

end FilePath

namespace Disk

variable {d e : Disk} {p q folder : FilePath} {name : String} {place start : Place}
  {names dots : List String}

theorem walk_dots (hfolder : d.at? start = some .folder) (hdots : ∀ dot ∈ dots, dot = ".") :
    dots.foldlM d.enter start = .ok start := by
  induction dots with
  | nil => rfl
  | cons dot rest ih =>
    obtain ⟨rfl, hrest⟩ := List.forall_mem_cons.mp hdots
    have hstay : d.enter start "." = .ok start := by simp [enter, hfolder]
    exact walk_cons_eq_ok.mpr ⟨start, hstay, ih hrest⟩

theorem locate_of_walk (hplain : p.IsPlain) (hne : p.text ≠ "")
    (h : p.names.foldlM d.enter (if p.isAbsolute then [] else d.here) = .ok place) :
    d.locate p = .ok (d.below p) := by
  rw [below, ← eq_of_walk hplain.down h]
  exact locate_eq_ok.mpr ⟨hplain.noNull, hne, Nat.not_lt.mpr hplain.short, h⟩

theorem locate_of_further_nil (hplain : p.IsPlain) (hne : p.text ≠ "")
    (hfurther : further p.names = []) : d.locate p = .ok (d.below p) := by
  have hdots : ∀ dot ∈ p.names, dot = "." := by
    intro dot hdot
    simpa using List.filter_eq_nil_iff.mp hfurther dot hdot
  exact locate_of_walk hplain hne (walk_dots (at?_of_prefix_start d p List.prefix_rfl) hdots)

/-- A path leads down from a folder that is there. -/
theorem locate_beside (hplain : q.IsPlain)
    (hnames : q.names = folder.names ++ dots ++ [name]) (hdots : ∀ dot ∈ dots, dot = ".")
    (habsolute : folder.isAbsolute = q.isAbsolute)
    (hfolder : folder.text = "" ∨ d.isFolder folder) : d.locate q = .ok (d.below q) := by
  have hne : q.text ≠ "" := by
    intro hempty
    obtain rfl : q = ⟨""⟩ := congrArg FilePath.mk hempty
    simp [FilePath.names, FilePath.pieces, splitSlashes] at hnames
  obtain ⟨middle, hmiddle, hentry⟩ : ∃ middle,
      folder.names.foldlM d.enter (if q.isAbsolute then [] else d.here) = .ok middle ∧
        d.at? middle = some .folder := by
    rcases hfolder with hempty | hfolder
    · obtain rfl : folder = ⟨""⟩ := congrArg FilePath.mk hempty
      exact ⟨_, rfl, at?_of_prefix_start d q List.prefix_rfl⟩
    · obtain ⟨middle, hmiddle, hentry⟩ := isFolder_iff.mp hfolder
      obtain ⟨-, -, -, hwalk⟩ := locate_eq_ok.mp hmiddle
      exact ⟨middle, habsolute ▸ hwalk, hentry⟩
  obtain ⟨hup, hsize⟩ := hplain.down name (by simp [hnames])
  suffices hwalk : q.names.foldlM d.enter (if q.isAbsolute then [] else d.here) =
      .ok (middle ++ further [name]) from locate_of_walk hplain hne hwalk
  rw [hnames]
  refine walk_append_eq_ok.mpr ⟨middle, walk_append_eq_ok.mpr ⟨middle, hmiddle, ?_⟩, ?_⟩
  · exact walk_dots hentry hdots
  · exact walk_cons_eq_ok.mpr ⟨_, enter_of_folder hentry hup hsize, rfl⟩

/-- What lies in a folder has its place there. -/
theorem below_beside (hnames : q.names = folder.names ++ dots ++ [name])
    (hdots : ∀ dot ∈ dots, dot = ".") (hname : name ≠ ".")
    (habsolute : folder.isAbsolute = q.isAbsolute) : d.below q = d.below folder ++ [name] := by
  rw [below, below, habsolute, hnames, further_append, further_append, further_dots hdots,
    List.append_nil, List.append_assoc]
  simp [further, hname]

/-- Once the folders above it are there, a path leads to where a file can be, unless a folder was
there before. -/
theorem accepts_beside (hraises : d.Raises e (depth d.here folder))
    (hfolder : folder.text = "" ∨ e.isFolder folder) (hplain : q.IsPlain)
    (hslash : ¬ q.endsInSlash) (hnames : q.names = folder.names ++ dots ++ [name])
    (hdots : ∀ dot ∈ dots, dot = ".") (hname : name ≠ ".")
    (habsolute : folder.isAbsolute = q.isAbsolute) (hfree : d.at? (d.below q) ≠ some .folder) :
    e.Accepts q (d.below q) := by
  have hplace := locate_beside hplain hnames hdots habsolute hfolder
  rw [below, hraises.keeps.here_eq] at hplace
  refine ⟨hplace, hslash, fun hmade ↦ ?_⟩
  have hdeep : (d.below q).length = depth d.here folder + 1 := by
    rw [below_beside hnames hdots hname habsolute, List.length_append]
    rfl
  rcases hraises.made (d.below q) with hsame | ⟨-, hshallow⟩
  · exact hfree (hsame.symm.trans hmade)
  · omega

/-- The names of a path that does not end in a dot lead from its folder to the last piece. -/
theorem names_of_isTidy (htidy : p.IsTidy) (hfurther : further p.names ≠ [])
    (h : folder.Continues p) :
    ∃ dots, p.names = folder.names ++ dots ++ [p.last] ∧ ∀ dot ∈ dots, dot = "." := by
  obtain ⟨dots, more, hnames, hdots, hmore⟩ := h.names_eq
  rcases List.eq_nil_or_concat' more with rfl | ⟨before, dot, rfl⟩
  · exact ⟨dots, hnames, hdots⟩
  · refine absurd (htidy ?_) hfurther
    rw [hnames, ← List.cons_append, ← List.append_assoc, List.getLast?_concat,
      hmore dot (by simp)]

/-- The place of a folder lies above the places of what lies in it. -/
theorem below_prefix (hnames : q.names = folder.names ++ dots ++ [name])
    (habsolute : folder.isAbsolute = q.isAbsolute) : d.below folder <+: d.below q := by
  rw [below, below, habsolute, hnames, further_append, further_append, List.append_assoc,
    ← List.append_assoc]
  exact List.prefix_append ..

/-- Whether no file is at a place or above it. -/
def IsOpen (d : Disk) (place : Place) : Prop :=
  ∀ above, above <+: place → ∀ content, d.at? above ≠ some (.file content)

theorem locate_cases (hplain : p.IsPlain) (hne : p.text ≠ "") (hopen : d.IsOpen (d.below p)) :
    d.locate p = .ok (d.below p) ∨ d.locate p = .error .missing := by
  rcases walk_cases hplain.down hopen with hwalk | hmissing
  · exact .inl (locate_of_walk hplain hne hwalk)
  · right
    rw [locate, if_neg hplain.noNull, if_neg hne, if_neg (Nat.not_lt.mpr hplain.short)]
    exact hmissing

end Disk

namespace DiskOp

open Disk

variable {d e : Disk} {p folder : FilePath} {place : Place} {steps : Nat}

theorem ensureFolder_ok (hplace : d.locate p = .ok place)
    (hopen : ∀ content, d.at? place ≠ some (.file content)) :
    ∃ e, (ensureFolder p).run d = .ok () e := by
  rw [ensureFolder_run, makeFolder_run, hplace]
  cases hentry : d.at? place with
  | none => exact ⟨(d.put place .folder).noting (.madeFolder place), by simp [hentry]⟩
  | some entry =>
    cases entry with
    | file content => exact absurd hentry (hopen content)
    | folder =>
      have hfolder : d.isFolder p := isFolder_iff.mpr ⟨place, hplace, hentry⟩
      exact ⟨d, by simp [hentry, hfolder]⟩

/-- A folder of an open path can be made at once, unless one above it is missing. -/
theorem missing_of_ensureFolder_error {o : Obstacle} (hplain : p.IsPlain) (hne : p.text ≠ "")
    (hopen : d.IsOpen (d.below p)) (h : (ensureFolder p).run d = .error o e) :
    o = .missing ∧ further p.names ≠ [] := by
  have hnowhere : d.locate p ≠ .ok (d.below p) := by
    intro hplace
    obtain ⟨f, hf⟩ := ensureFolder_ok hplace (hopen _ List.prefix_rfl)
    rw [h] at hf
    cases hf
  have hmissing := (locate_cases hplain hne hopen).resolve_left hnowhere
  refine ⟨?_, fun hnil ↦ hnowhere (locate_of_further_nil hplain hne hnil)⟩
  rw [ensureFolder_run, makeFolder_run, hmissing] at h
  dsimp only at h
  split_ifs at h
  cases h
  rfl

/-- A folder can be made where no file is, once the folder that it lies in has been made. -/
theorem ensureFolder_beside {name : String} {dots : List String} (hplain : p.IsPlain)
    (hparent : p.parent? = some folder) (hnames : p.names = folder.names ++ dots ++ [name])
    (hdots : ∀ dot ∈ dots, dot = ".") (hfree : ∀ content, d.at? (d.below p) ≠ some (.file content))
    (hmake : (makeFoldersUpTo folder (steps + 1)).run d = .ok () e) :
    ∃ f, (ensureFolder p).run e = .ok () f := by
  have hcontinues := FilePath.continues_of_parent? hparent
  have hmade := madeAbove_makeFoldersUpTo (.single hparent) (steps + 1) d
  rw [leaves_of_ok hmake] at hmade
  have hfolder : folder.text = "" ∨ e.isFolder folder :=
    (em _).imp_right fun hsome ↦ isFolder_of_makeFoldersUpTo hsome hmake
  have hplace : e.locate p = .ok (d.below p) := by
    have hthere := locate_beside hplain hnames hdots hcontinues.isAbsolute_eq hfolder
    rwa [below, hmade.keeps.here_eq] at hthere
  apply ensureFolder_ok hplace
  intro content hfile
  rcases hmade.made (d.below p) with hsame | ⟨-, hentry, -⟩
  · exact hfree content (hsame.symm.trans hfile)
  · cases hentry.symm.trans hfile

/-- The folders of a plain path can be made unless a file is in the way. -/
theorem makeFoldersUpTo_ok (hplain : p.IsPlain) (htidy : p.IsTidy) (hopen : d.IsOpen (d.below p))
    (hsteps : p.names.length < steps) : ∃ e, (makeFoldersUpTo p steps).run d = .ok () e := by
  induction steps generalizing p with
  | zero => omega
  | succ steps ih =>
    by_cases hempty : p.text = ""
    · exact ⟨d, makeFoldersUpTo_of_empty hempty _⟩
    rw [makeFoldersUpTo_run, if_neg hempty]
    cases hfirst : (ensureFolder p).run d with
    | ok _ e => exact ⟨e, rfl⟩
    | error o f =>
      obtain rfl : d = f := (of_ensureFolder_error hfirst).1.symm
      obtain ⟨rfl, hfurther⟩ := missing_of_ensureFolder_error hplain hempty hopen hfirst
      obtain ⟨folder, hparent⟩ := Option.ne_none_iff_exists'.mp
        fun hnone ↦ hfurther (FilePath.further_of_parent?_none hnone)
      have hcontinues := FilePath.continues_of_parent? hparent
      obtain ⟨dots, hnames, hdots⟩ := names_of_isTidy htidy hfurther hcontinues
      have hbelow : d.below folder <+: d.below p := below_prefix hnames hcontinues.isAbsolute_eq
      have hfewer : folder.names.length < steps := by
        rw [hnames] at hsteps
        simp only [List.length_append, List.length_singleton] at hsteps
        omega
      obtain ⟨e, he⟩ := ih (hplain.of_continues hcontinues) (FilePath.isTidy_of_parent? hparent)
        (fun above habove ↦ hopen above (habove.trans hbelow)) hfewer
      dsimp only
      rw [if_neg (not_not.mpr rfl), hparent]
      dsimp only
      rw [he]
      obtain ⟨fewer, rfl⟩ := Nat.exists_eq_add_of_lt hfewer
      exact ensureFolder_beside hplain hparent hnames hdots (hopen _ List.prefix_rfl) he

end DiskOp

end CloudLedger.Files
