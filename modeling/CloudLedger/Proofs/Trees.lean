import CloudLedger.Proofs.ArchivePaths
import CloudLedger.Proofs.Folders
import CloudLedger.Source

/-!
# Trees of folders

Everything on a disk lies in a folder and has a name that the operating system takes: the disk is a
tree.  An empty disk is one, and it stays one whatever is written, made, moved or removed.  In a
tree the path of a place is found by joining names, and it leads there unless it is too long.
-/

namespace CloudLedger

namespace Files

/-- Whether something in a folder can have a name. -/
structure IsName (name : String) : Prop where
  plain : '/' ∉ name.toList
  not_special : name ∉ ["", ".", ".."]
  not_null : '\x00' ∉ name.toList
  short : size name ≤ longestName

namespace IsName

variable {name : String}

theorem ne_empty (h : IsName name) : name ≠ "" :=
  fun heq ↦ h.not_special (heq ▸ List.mem_cons_self)

theorem ne_dot (h : IsName name) : name ≠ "." := fun heq ↦ h.not_special (by simp [heq])

theorem ne_up (h : IsName name) : name ≠ ".." := fun heq ↦ h.not_special (by simp [heq])

theorem toList_ne_nil (h : IsName name) : name.toList ≠ [] := by simpa using h.ne_empty

end IsName

instance (name : String) : Decidable (IsName name) :=
  decidable_of_iff ('/' ∉ name.toList ∧ name ∉ ["", ".", ".."] ∧ '\x00' ∉ name.toList ∧
    size name ≤ longestName) ⟨fun h ↦ ⟨h.1, h.2.1, h.2.2.1, h.2.2.2⟩, fun h ↦ ⟨h.1, h.2, h.3, h.4⟩⟩

/-- The pieces of a path hold nothing that the path does not hold. -/
theorem FilePath.subset_of_mem_pieces {p : FilePath} {piece : String} (h : piece ∈ p.pieces) :
    piece.toList ⊆ p.text.toList := by
  obtain ⟨before, after, hpieces⟩ := List.append_of_mem h
  rw [← joinSlashes_pieces p, hpieces, joinSlashes, String.toList_ofList, List.map_append,
    List.map_cons, List.append_cons]
  have hlast := intercalate_concat_suffix ['/'] (before.map String.toList) piece.toList
  have hfront := intercalate_prefix ['/']
    (List.concat_ne_nil piece.toList (before.map String.toList)) (after.map String.toList)
  exact List.Subset.trans hlast.subset hfront.subset

namespace Disk

variable {d e : Disk} {p : FilePath} {place above start : Place} {name : String}
  {names : List String} {entry : Entry}

/-- Whether the entries of a disk make a tree of folders. -/
structure IsTree (d : Disk) : Prop where
  found : ∀ place entry, (place, entry) ∈ d.entries → d.at? place = some entry
  within : ∀ place name, (d.at? (place ++ [name])).isSome →
    IsName name ∧ d.at? place = some .folder

namespace IsTree

/-! ## What is there -/

theorem isSome_of_append (h : d.IsTree) (hsome : (d.at? (place ++ names)).isSome) :
    (d.at? place).isSome := by
  induction names using List.reverseRecOn with
  | nil => simpa using hsome
  | append_singleton names name ih =>
    rw [← List.append_assoc] at hsome
    obtain ⟨-, hfolder⟩ := h.within _ _ hsome
    exact ih (by rw [hfolder]; rfl)

theorem isName_of_mem (h : d.IsTree) (hsome : (d.at? (place ++ names)).isSome)
    (hname : name ∈ names) : IsName name := by
  obtain ⟨before, after, rfl⟩ := List.append_of_mem hname
  rw [List.append_cons, ← List.append_assoc, ← List.append_assoc] at hsome
  exact (h.within _ _ (h.isSome_of_append hsome)).1

theorem enter_eq (h : d.IsTree) (hsome : (d.at? (place ++ [name])).isSome) :
    d.enter place name = .ok (place ++ [name]) := by
  obtain ⟨hname, hfolder⟩ := h.within _ _ hsome
  rw [enter_of_folder hfolder hname.ne_up hname.short, further, List.filter_cons_of_pos]
  · rfl
  · simpa using hname.ne_dot

theorem walk_eq (h : d.IsTree) (hsome : (d.at? (place ++ names)).isSome) :
    names.foldlM d.enter place = .ok (place ++ names) := by
  induction names generalizing place with
  | nil => simp [pure, Except.pure]
  | cons name names ih =>
    rw [List.append_cons] at hsome ⊢
    rw [List.foldlM_cons, h.enter_eq (h.isSome_of_append hsome)]
    exact ih hsome

end IsTree

/-! ## Trees stay trees -/

theorem isTree_empty {here : Place} (hhere : ∀ name ∈ here, IsName name) :
    ({ here } : Disk).IsTree where
  found _ _ hmem := absurd hmem List.not_mem_nil
  within place name hsome := by
    have habove : (place ++ [name]).isPrefixOf here := by
      by_contra hnot
      simp [at?, hnot] at hsome
    rw [List.isPrefixOf_iff_prefix] at habove
    refine ⟨hhere name (habove.subset (by simp)), at?_of_isPrefixOf ?_⟩
    exact List.isPrefixOf_iff_prefix.mpr ((List.prefix_append _ _).trans habove)

/-- Where something can be put: in a folder, and not in the place of one. -/
structure IsFree (d : Disk) (place : Place) (entry : Entry) : Prop where
  inside : ∃ above name, place = above ++ [name] ∧ IsName name ∧ d.at? above = some .folder
  not_folder : d.at? place = some .folder → entry = .folder

theorem IsTree.put (h : d.IsTree) (hfree : d.IsFree place entry) : (d.put place entry).IsTree := by
  obtain ⟨above, name, rfl, hname, habove⟩ := hfree.inside
  have hself : (d.put (above ++ [name]) entry).at? (above ++ [name]) = some entry := by
    rw [at?_put_self]
    split_ifs with hprefix
    · rw [hfree.not_folder (at?_of_isPrefixOf hprefix)]
    · rfl
  refine ⟨fun other found hmem ↦ ?_, fun other last hsome ↦ ?_⟩
  · rcases List.mem_cons.mp hmem with heq | hmem
    · cases heq
      exact hself
    · obtain ⟨hold, hkept⟩ := List.mem_filter.mp hmem
      rw [at?_put_of_ne (by simpa using hkept)]
      exact h.found other found hold
  · by_cases hlast : other ++ [last] = above ++ [name]
    · obtain ⟨rfl, heq⟩ := List.append_inj' hlast rfl
      obtain rfl := List.singleton_inj.mp heq
      refine ⟨hname, ?_⟩
      rw [at?_put_of_ne (by simp), habove]
    · rw [at?_put_of_ne hlast] at hsome
      obtain ⟨hlastName, hfolder⟩ := h.within other last hsome
      refine ⟨hlastName, ?_⟩
      by_cases hother : other = above ++ [name]
      · rw [hother] at hfolder ⊢
        rw [hself, hfree.not_folder hfolder]
      · rw [at?_put_of_ne hother, hfolder]

theorem IsTree.without {dropped : Place → Bool} (h : d.IsTree)
    (hbelow : ∀ place name, dropped place → (d.at? (place ++ [name])).isSome →
      dropped (place ++ [name])) : (d.without dropped).IsTree := by
  have hkept {other : Place} (hother : ¬ dropped other) :
      (d.without dropped).at? other = d.at? other := by
    rw [at?_without, if_neg hother]
    split_ifs with hprefix
    · rw [at?_of_isPrefixOf hprefix]
    · rfl
  refine ⟨fun place entry hmem ↦ ?_, fun place name hsome ↦ ?_⟩
  · obtain ⟨hold, hnot⟩ := List.mem_filter.mp hmem
    rw [hkept (by simpa using hnot)]
    exact h.found place entry hold
  · rw [at?_without] at hsome
    split_ifs at hsome with hprefix hdropped
    · have hhere : (d.at? (place ++ [name])).isSome := by rw [at?_of_isPrefixOf hprefix]; rfl
      refine ⟨(h.within place name hhere).1, at?_of_isPrefixOf (d := d.without dropped) ?_⟩
      rw [List.isPrefixOf_iff_prefix] at hprefix ⊢
      exact (List.prefix_append _ _).trans hprefix
    · cases hsome
    · obtain ⟨hname, hfolder⟩ := h.within place name hsome
      exact ⟨hname, by rw [hkept fun hplace ↦ hdropped (hbelow place name hplace hsome), hfolder]⟩

theorem IsTree.noting (h : d.IsTree) (change : Change) : (d.noting change).IsTree :=
  ⟨h.found, h.within⟩

theorem IsTree.folder_dropLast (h : d.IsTree) (hfolder : d.at? place = some .folder) :
    d.at? place.dropLast = some .folder := by
  rcases List.eq_nil_or_concat' place with rfl | ⟨above, name, rfl⟩
  · exact hfolder
  · rw [List.dropLast_concat]
    exact (h.within above name (by rw [hfolder]; rfl)).2

/-- A walk down a tree ends at a folder or inside one. -/
theorem IsTree.inside_of_walk (h : d.IsTree) (hstart : d.at? start = some .folder)
    (hnames : ∀ name ∈ names, '/' ∉ name.toList ∧ name ≠ "" ∧ '\x00' ∉ name.toList)
    (hwalk : names.foldlM d.enter start = .ok place) :
    d.at? place = some .folder ∨ ∃ above name, place = above ++ [name] ∧ IsName name ∧
      d.at? above = some .folder := by
  induction names generalizing start with
  | nil =>
    cases hwalk
    exact .inl hstart
  | cons name rest ih =>
    obtain ⟨next, hnext, hrest⟩ := walk_cons_eq_ok.mp hwalk
    obtain ⟨⟨hplain, hempty, hnull⟩, hothers⟩ := List.forall_mem_cons.mp hnames
    rcases enter_cases hnext with ⟨-, rfl⟩ | ⟨-, rfl⟩ | ⟨hdot, hup, rfl⟩
    · exact ih hstart hothers hrest
    · exact ih (h.folder_dropLast hstart) hothers hrest
    · cases rest with
      | nil =>
        cases hrest
        have hshort : size name ≤ longestName := by
          rw [enter, hstart] at hnext
          simp only [hdot, hup, if_false] at hnext
          split_ifs at hnext with hlong
          exact Nat.not_lt.mp hlong
        exact .inr ⟨start, name, rfl, ⟨hplain, by simp [hempty, hdot, hup], hnull, hshort⟩, hstart⟩
      | cons second rest =>
        obtain ⟨_, hsecond, -⟩ := walk_cons_eq_ok.mp hrest
        exact ih (folder_of_enter hsecond) hothers hrest

/-- Where a path leads in a tree there is a folder, or room in one. -/
theorem IsTree.inside_of_locate (h : d.IsTree) (hlocate : d.locate p = .ok place) :
    d.at? place = some .folder ∨ ∃ above name, place = above ++ [name] ∧ IsName name ∧
      d.at? above = some .folder := by
  obtain ⟨hnull, -, -, hwalk⟩ := locate_eq_ok.mp hlocate
  refine h.inside_of_walk ?_ (fun name hname ↦ ?_) hwalk
  · apply at?_of_isPrefixOf
    rw [List.isPrefixOf_iff_prefix]
    split_ifs
    · exact List.nil_prefix
    · exact List.prefix_rfl
  · obtain ⟨hpiece, hempty⟩ := List.mem_filter.mp hname
    refine ⟨FilePath.slash_not_mem_of_mem_pieces hpiece, by simpa using hempty, fun hmem ↦ hnull ?_⟩
    exact List.contains_iff_mem.mpr (FilePath.subset_of_mem_pieces hpiece hmem)

end Disk

namespace DiskOp

open Disk

variable {d e : Disk} {p q : FilePath} {content : List UInt8}

theorem isTree_of_write (h : d.IsTree) (hwrite : (write p content).run d = .ok () e) :
    e.IsTree := by
  obtain ⟨place, ⟨hplace, -, hnot⟩, rfl⟩ := write_eq_ok.mp hwrite
  have hinside := (h.inside_of_locate hplace).resolve_left hnot
  exact (h.put ⟨hinside, fun hfolder ↦ absurd hfolder hnot⟩).noting _

theorem isTree_makeFolder (h : d.IsTree) (p : FilePath) : (leaves (makeFolder p) d).IsTree := by
  rw [leaves, makeFolder_run]
  cases hplace : d.locate p with
  | error o => exact h
  | ok place =>
    cases hentry : d.at? place with
    | some entry => simpa [hentry] using h
    | none =>
      have hinside := (h.inside_of_locate hplace).resolve_left (by simp [hentry])
      simpa [hentry] using (h.put ⟨hinside, fun _ ↦ rfl⟩).noting (.madeFolder place)

theorem isTree_makeFolders (h : d.IsTree) (p : FilePath) : (leaves (makeFolders p) d).IsTree := by
  refine makeFoldersUpTo_induction (fun d e ↦ d.IsTree → e.IsTree) (fun _ ↦ True) (fun _ ↦ id)
    (fun d e f hde hef ↦ hef ∘ hde) (fun p d _ hd ↦ ?_) (fun _ _ _ _ ↦ trivial) _ p d trivial h
  have hmade := isTree_makeFolder hd p
  rw [leaves] at hmade
  rw [leaves, ensureFolder_run]
  cases hrun : (makeFolder p).run d with
  | ok _ e => rwa [hrun] at hmade
  | error o e =>
    rw [hrun] at hmade
    by_cases hfolder : e.isFolder p <;> simpa [hfolder] using hmade

theorem isTree_of_move (h : d.IsTree) (hmove : (move p q).run d = .ok () e) : e.IsTree := by
  obtain ⟨source, content, target, hsource, hread, ⟨htarget, -, hnot⟩, rfl⟩ :=
    move_eq_ok.mp hmove
  obtain ⟨source', haccepts, hfile⟩ := accepts_of_read hread
  obtain rfl := Except.ok.inj (hsource.symm.trans haccepts.1)
  have hwithout : (d.without (· = source)).IsTree := by
    refine h.without fun place name hplace hsome ↦ ?_
    obtain ⟨-, hfolder⟩ := h.within place name hsome
    rw [of_decide_eq_true hplace, hfile] at hfolder
    cases hfolder
  have hsame := sameFolders_without haccepts.2.2
  have hnot' := fun hfolder ↦ hnot ((hsame.folder_iff target).mp hfolder)
  have hplace := locate_of_keepsFolders hsame.keepsFolders htarget
  have hinside := (hwithout.inside_of_locate hplace).resolve_left hnot'
  exact (hwithout.put ⟨hinside, fun hfolder ↦ absurd hfolder hnot'⟩).noting _

theorem isTree_remove (h : d.IsTree) (p : FilePath) : (leaves (remove p) d).IsTree := by
  have hbelow : ∀ above : Place, (d.without (above.isPrefixOf ·)).IsTree := fun above ↦
    h.without fun place name hplace _ ↦ by
      rw [List.isPrefixOf_iff_prefix] at hplace ⊢
      exact hplace.trans (List.prefix_append _ _)
  rw [leaves, remove, EStateM.run_bind, look_run]
  cases d.locate p with
  | error o => exact h
  | ok place =>
    dsimp only
    rw [EStateM.run_bind, EStateM.run_get]
    cases hentry : d.at? place with
    | none => simpa [hentry] using h
    | some entry => simpa [hentry] using (hbelow place).noting (.removed place)

end DiskOp

/-! ## The path of a place -/

namespace FilePath

variable {p top : FilePath} {name : String} {names : List String}

theorem join_cases (p : FilePath) (name : String) :
    (p.join name).text = p.text ++ name ∨ (p.join name).text = p.text ++ "/" ++ name := by
  rw [join]
  split_ifs
  · exact .inl rfl
  · exact .inr rfl

theorem text_join_ne_empty (hname : IsName name) : (p.join name).text ≠ "" := by
  have hne := hname.toList_ne_nil
  rcases p.join_cases name with heq | heq <;> rw [heq, ne_eq, ← String.toList_inj] <;> simp [hne]

theorem not_endsInSlash_join (hname : IsName name) : ¬ (p.join name).endsInSlash := by
  have hne := hname.toList_ne_nil
  have hlast : (p.join name).text.toList.getLast? = name.toList.getLast? := by
    rcases p.join_cases name with heq | heq <;>
      rw [heq, String.toList_append, List.getLast?_append_of_ne_nil _ hne]
  rw [endsInSlash, decide_eq_true_iff, hlast]
  exact fun hslash ↦ hname.plain (List.mem_of_getLast? hslash)

theorem holdsNull_join (hname : IsName name) : (p.join name).holdsNull = p.holdsNull := by
  have hnull := hname.not_null
  rw [holdsNull, holdsNull, Bool.eq_iff_iff, List.contains_iff_mem, List.contains_iff_mem]
  rcases p.join_cases name with heq | heq <;> simp [heq, hnull]

end FilePath

end Files

namespace Source

open Files Files.Disk Files.FilePath

variable {d : Disk} {top : FilePath} {place : Place} {name : String} {names : List String}
  {content : List UInt8}

theorem pathBelow_concat (top : FilePath) (names : List String) (name : String) :
    pathBelow top (names ++ [name]) = (pathBelow top names).join name := by
  rw [pathBelow, List.foldl_append]
  rfl

/-- What holds of a folder's path and is kept by every further name holds of what lies below. -/
theorem pathBelow_induction {motive : List String → FilePath → Prop} (hstart : motive [] top)
    (hjoin : ∀ names name p, IsName name → motive names p → motive (names ++ [name]) (p.join name))
    (hnames : ∀ name ∈ names, IsName name) : motive names (pathBelow top names) := by
  induction names using List.reverseRecOn with
  | nil => exact hstart
  | append_singleton names name ih =>
    obtain ⟨hnames, hname⟩ := List.forall_mem_append.mp hnames
    rw [pathBelow_concat]
    exact hjoin names name _ (List.forall_mem_singleton.mp hname) (ih hnames)

section Names

variable (hnames : ∀ name ∈ names, IsName name)
include hnames

theorem names_pathBelow : (pathBelow top names).names = top.names ++ names := by
  refine pathBelow_induction (motive := fun names p ↦ p.names = top.names ++ names)
    (List.append_nil _).symm ?_ hnames
  intro names name p hname ih
  rw [names_join hname.plain hname.ne_empty, ih, List.append_assoc]

theorem isAbsolute_pathBelow : (pathBelow top names).isAbsolute = top.isAbsolute :=
  pathBelow_induction (motive := fun _ p ↦ p.isAbsolute = top.isAbsolute) rfl
    (fun _ _ _ hname ih ↦ (isAbsolute_join hname.plain).trans ih) hnames

theorem holdsNull_pathBelow : (pathBelow top names).holdsNull = top.holdsNull :=
  pathBelow_induction (motive := fun _ p ↦ p.holdsNull = top.holdsNull) rfl
    (fun _ _ _ hname ih ↦ (holdsNull_join hname).trans ih) hnames

theorem text_pathBelow_ne_empty (htop : top.text ≠ "") : (pathBelow top names).text ≠ "" :=
  pathBelow_induction (motive := fun _ p ↦ p.text ≠ "") htop
    (fun _ _ _ hname _ ↦ text_join_ne_empty hname) hnames

end Names

/-- The path of a place leads there, unless it is too long. -/
theorem locate_pathBelow (h : d.IsTree) (htop : d.locate top = .ok place)
    (hsome : (d.at? (place ++ names)).isSome) :
    d.locate (pathBelow top names) =
      if longestPath < size (pathBelow top names).text then .error .tooLong
      else .ok (place ++ names) := by
  have hnames : ∀ name ∈ names, IsName name := fun _ ↦ h.isName_of_mem hsome
  obtain ⟨hnull, hempty, -, hwalk⟩ := locate_eq_ok.mp htop
  rw [locate, holdsNull_pathBelow hnames, if_neg hnull,
    if_neg (text_pathBelow_ne_empty hnames hempty), isAbsolute_pathBelow hnames,
    names_pathBelow hnames, List.foldlM_append, hwalk]
  exact congrArg _ (h.walk_eq hsome)

theorem read_pathBelow (h : d.IsTree) (htop : d.locate top = .ok place)
    (hfile : d.at? (place ++ (names ++ [name])) = some (.file content)) :
    d.read (pathBelow top (names ++ [name])) =
      if longestPath < size (pathBelow top (names ++ [name])).text then .error .tooLong
      else .ok content := by
  have hsome : (d.at? (place ++ (names ++ [name]))).isSome := by rw [hfile]; rfl
  have hlocate := locate_pathBelow h htop hsome
  have hname : IsName name := h.isName_of_mem hsome (by simp)
  split_ifs at hlocate ⊢ with hlong
  · rw [Disk.read, Disk.find, hlocate]
    rfl
  · refine read_eq_ok ⟨hlocate, ?_, by simp [hfile]⟩ hfile
    rw [pathBelow_concat]
    exact not_endsInSlash_join hname

end Source

end CloudLedger
