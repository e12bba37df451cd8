import CloudLedger.Proofs.Disk
import CloudLedger.Proofs.Path

/-!
# Walking along a path

A path is walked name by name, and each step needs a folder to leave.  Dots stay where they are;
names that lead neither up nor too far lead one step down each.  A path and another file in its
folder are walked alike up to the folder, so a file that is written under another name does not
change what the path leads to.
-/

namespace CloudLedger.Files

/-! ## Names that lead down -/

/-- Whether names lead down step by step: none leads up again, and none is too long. -/
def LeadDown (names : List String) : Prop :=
  ∀ name ∈ names, name ≠ ".." ∧ size name ≤ longestName

/-- The names that lead further. -/
def further (names : List String) : List String := names.filter fun name ↦ name ≠ "."

theorem further_append (names rest : List String) :
    further (names ++ rest) = further names ++ further rest := List.filter_append ..

theorem further_cons (name : String) (names : List String) :
    further (name :: names) = further [name] ++ further names :=
  further_append [name] names

theorem further_dots {dots : List String} (h : ∀ dot ∈ dots, dot = ".") : further dots = [] :=
  List.filter_eq_nil_iff.mpr fun dot hdot ↦ by simp [h dot hdot]

theorem LeadDown.tail {name : String} {names : List String} (h : LeadDown (name :: names)) :
    LeadDown names :=
  fun other hother ↦ h other (List.mem_cons_of_mem name hother)

theorem leadDown_dots {dots : List String} (h : ∀ dot ∈ dots, dot = ".") : LeadDown dots :=
  fun dot hdot ↦ h dot hdot ▸ ⟨by decide, by decide⟩

namespace Disk

variable {d e : Disk} {p : FilePath} {name : String} {place other source : Place}
  {names rest dots : List String}

/-! ## Steps -/

theorem locate_eq_ok : d.locate p = .ok place ↔
    ¬ p.holdsNull ∧ p.text ≠ "" ∧ ¬ longestPath < size p.text ∧
      p.names.foldlM d.enter (if p.isAbsolute then [] else d.here) = .ok place := by
  rw [locate]
  by_cases hnull : p.holdsNull
  · simp [hnull]
  · by_cases hempty : p.text = ""
    · rw [if_neg hnull, if_pos hempty]
      simp [hempty]
    · by_cases hlong : longestPath < size p.text <;> simp [hnull, hempty, hlong]

theorem locate_congr (hhere : e.here = d.here)
    (h : p.names.foldlM e.enter (if p.isAbsolute then [] else d.here) =
      p.names.foldlM d.enter (if p.isAbsolute then [] else d.here)) :
    e.locate p = d.locate p := by
  rw [locate, locate, hhere, h]

theorem folder_of_enter (h : d.enter place name = .ok other) : d.at? place = some .folder := by
  unfold enter at h
  split at h
  · cases h
  · cases h
  · assumption

theorem enter_cases (h : d.enter place name = .ok other) :
    (name = "." ∧ other = place) ∨ (name = ".." ∧ other = place.dropLast) ∨
      (name ≠ "." ∧ name ≠ ".." ∧ other = place ++ [name]) := by
  unfold enter at h
  split at h
  · cases h
  · cases h
  · split_ifs at h with hdot hdots
    · exact .inl ⟨hdot, (Except.ok.inj h).symm⟩
    · exact .inr (.inl ⟨hdots, (Except.ok.inj h).symm⟩)
    · exact .inr (.inr ⟨hdot, hdots, (Except.ok.inj h).symm⟩)

theorem eq_of_enter (h : d.enter place name = .ok other) (hdot : name ≠ ".") (hup : name ≠ "..") :
    other = place ++ [name] := by
  rcases enter_cases h with ⟨heq, -⟩ | ⟨heq, -⟩ | ⟨-, -, hdown⟩
  · exact absurd heq hdot
  · exact absurd heq hup
  · exact hdown

theorem enter_congr (h : e.at? place = d.at? place) (name : String) :
    e.enter place name = d.enter place name := by
  unfold enter
  rw [h]

theorem walk_append_eq_ok : (names ++ rest).foldlM d.enter place = .ok other ↔
    ∃ middle, names.foldlM d.enter place = .ok middle ∧
      rest.foldlM d.enter middle = .ok other := by
  rw [List.foldlM_append]
  exact bind_eq_ok

theorem walk_cons_eq_ok : (name :: rest).foldlM d.enter place = .ok other ↔
    ∃ next, d.enter place name = .ok next ∧ rest.foldlM d.enter next = .ok other := by
  rw [List.foldlM_cons]
  exact bind_eq_ok

theorem enter_of_folder (h : d.at? place = some .folder) (hup : name ≠ "..")
    (hsize : size name ≤ longestName) :
    d.enter place name = .ok (place ++ further [name]) := by
  rw [enter, h]
  by_cases hdot : name = "."
  · simp [hdot, further]
  · simp [hdot, hup, further, Nat.not_lt.mpr hsize]

theorem eq_of_walk (hdown : LeadDown names) (h : names.foldlM d.enter place = .ok other) :
    other = place ++ further names := by
  induction names generalizing place with
  | nil =>
    cases h
    simp [further]
  | cons name names ih =>
    obtain ⟨next, hnext, hrest⟩ := walk_cons_eq_ok.mp h
    obtain ⟨hup, hsize⟩ := hdown name List.mem_cons_self
    obtain rfl := Except.ok.inj
      (hnext.symm.trans (enter_of_folder (folder_of_enter hnext) hup hsize))
    rw [ih hdown.tail hrest, further_cons name names, List.append_assoc]

/-- Dots lead nowhere else. -/
theorem eq_of_walk_dots (hdots : ∀ dot ∈ dots, dot = ".")
    (h : dots.foldlM d.enter place = .ok other) : other = place := by
  rw [eq_of_walk (leadDown_dots hdots) h, further_dots hdots, List.append_nil]

theorem walk_dots_congr (hdots : ∀ dot ∈ dots, dot = ".") (h : e.at? place = d.at? place) :
    dots.foldlM e.enter place = dots.foldlM d.enter place := by
  induction dots with
  | nil => rfl
  | cons dot rest ih =>
    rw [List.foldlM_cons, List.foldlM_cons, enter_congr h]
    cases hnext : d.enter place dot with
    | error o => rfl
    | ok next =>
      have hstay : next = place :=
        eq_of_walk_dots (List.forall_mem_singleton.mpr (hdots dot List.mem_cons_self))
          (walk_cons_eq_ok.mpr ⟨next, hnext, rfl⟩)
      rw [hstay]
      exact ih fun dot hdot ↦ hdots dot (List.mem_cons_of_mem _ hdot)

/-! ## Beside a path -/

/-- What a path leads to depends on where it leads and on what is there. -/
theorem read_congr (hlocate : e.locate p = d.locate p)
    (hentry : ∀ place, d.locate p = .ok place → e.at? place = d.at? place) :
    e.read p = d.read p := by
  rw [read, read, find, find, hlocate]
  cases hplace : d.locate p with
  | error o => rfl
  | ok place => simp only [bind, Except.bind, hentry place hplace]

section Beside

variable (hname : p.fileName? = some name) {extension : String} (hdot : '.' ∈ extension.toList)
  (hslash : '/' ∉ extension.toList) (hsource : d.Accepts (p.withExtension extension) source)
include hname hdot hslash hsource

/-- A file that can be written under another name has a place in the same folder. -/
theorem exists_folder_of_withExtension :
    ∃ above, (FilePath.spoken p.front).foldlM d.enter (if p.isAbsolute then [] else d.here) =
        .ok above ∧
      d.at? above = some .folder ∧ above ++ [p.last] ≠ source := by
  obtain ⟨-, -, -, hwalk⟩ := locate_eq_ok.mp hsource.1
  rw [FilePath.names_withExtension hname hslash, FilePath.isAbsolute_withExtension hname hslash,
    walk_append_eq_ok] at hwalk
  obtain ⟨above, habove, hrest⟩ := hwalk
  obtain ⟨_, hrenamed, hend⟩ := walk_cons_eq_ok.mp hrest
  obtain rfl := Except.ok.inj hend
  have hfolder : d.at? above = some .folder := folder_of_enter hrenamed
  refine ⟨above, habove, hfolder, fun heq ↦ ?_⟩
  rcases enter_cases hrenamed with ⟨-, hstay⟩ | ⟨-, hup⟩ | ⟨-, -, hdown⟩
  · exact hsource.2.2 (hstay ▸ hfolder)
  · have hlength := congrArg List.length (heq.trans hup)
    rw [List.length_append, List.length_dropLast, List.length_singleton] at hlength
    omega
  · have hlasts := List.append_cancel_left (heq.trans hdown)
    exact FilePath.renamed_ne_last hname hdot (List.singleton_inj.mp hlasts).symm

/-- A file that is written under another name is not where the path leads. -/
theorem ne_of_locate (hplace : d.locate p = .ok place) : place ≠ source := by
  obtain ⟨rfl, hempty, hstay, hup⟩ := FilePath.last_of_fileName? hname
  obtain ⟨dots, hnames, hdots⟩ := FilePath.names_eq_front_last hempty
  obtain ⟨above, habove, -, hne⟩ := exists_folder_of_withExtension hname hdot hslash hsource
  obtain ⟨-, -, -, hwalk⟩ := locate_eq_ok.mp hplace
  rw [hnames, walk_append_eq_ok] at hwalk
  obtain ⟨_, habove', hrest⟩ := hwalk
  obtain rfl := Except.ok.inj (habove.symm.trans habove')
  obtain ⟨next, hstep, hend⟩ := walk_cons_eq_ok.mp hrest
  rwa [eq_of_walk_dots hdots hend, eq_of_enter hstep hstay hup]

/-- A file that is written under another name is not found at the path. -/
theorem read_put_withExtension (content : List UInt8) :
    (d.put source (.file content)).read p = d.read p := by
  obtain ⟨rfl, hempty, hstay, hup⟩ := FilePath.last_of_fileName? hname
  obtain ⟨dots, hnames, hdots⟩ := FilePath.names_eq_front_last hempty
  obtain ⟨above, habove, hfolder, hne⟩ :=
    exists_folder_of_withExtension hname hdot hslash hsource
  have hsame := sameFolders_put content hsource.2.2
  have haboveEntry : (d.put source (.file content)).at? above = d.at? above := by
    rw [hfolder, hsame.folder_iff, hfolder]
  have hendEntry := at?_put_of_ne (d := d) hne (.file content)
  have hnext : ∀ next, d.enter above p.last = .ok next → next = above ++ [p.last] :=
    fun next hnext ↦ eq_of_enter hnext hstay hup
  apply read_congr
  · apply locate_congr hsame.here_eq
    rw [hnames, List.foldlM_append, List.foldlM_append, habove,
      walk_of_keepsFolders hsame.keepsFolders habove]
    change List.foldlM _ _ _ = List.foldlM _ _ _
    rw [List.foldlM_cons, List.foldlM_cons, enter_congr haboveEntry]
    cases hstep : d.enter above p.last with
    | error o => rfl
    | ok next =>
      obtain rfl := hnext next hstep
      exact walk_dots_congr hdots hendEntry
  · intro place hplace
    exact at?_put_of_ne (ne_of_locate hname hdot hslash hsource hplace) _

end Beside

end Disk

end CloudLedger.Files
