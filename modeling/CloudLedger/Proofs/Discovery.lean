import CloudLedger.Proofs.Outcomes
import CloudLedger.Proofs.PathOrder
import CloudLedger.Proofs.SameEntries
import Mathlib.Data.List.Sort

/-!
# The exports of a folder

A search finds the files that are named like exports at any depth of a tree, each once and in the
order of their paths, however the disk lists its entries.  It goes on only in folders that open by
their paths: a folder that may not be listed, or whose path is too long, is passed over with all
that lies beneath it, and nothing is said about it.  What is found is then read in that order.
-/

namespace CloudLedger

open Files

namespace Files.Disk

variable {d e : Disk} {p : FilePath} {place : Place} {content : List UInt8}

theorem mem_entries_of_file (h : d.at? place = some (.file content)) :
    (place, .file content) ∈ d.entries := by
  rw [at?] at h
  split_ifs at h
  · cases h
  · obtain ⟨⟨other, entry⟩, hfind, rfl⟩ := Option.map_eq_some_iff.mp h
    obtain ⟨hmem, rfl⟩ := find?_entries.mp hfind
    exact hmem

theorem opens_iff : d.opens p ↔
    ∃ place, d.locate p = .ok place ∧ d.at? place = some .folder ∧ place ∉ d.unlisted := by
  rw [opens]
  cases d.locate p <;> simp

theorem SameEntries.opens_eq (h : d.SameEntries e)
    (hunlisted : ∀ place, place ∈ e.unlisted ↔ place ∈ d.unlisted) (p : FilePath) :
    e.opens p = d.opens p := by
  rw [Bool.eq_iff_iff, opens_iff, opens_iff]
  simp only [h.locate_eq, h.at?_eq, hunlisted]

end Files.Disk

/-! ## The files below a folder -/

namespace Source

open Files.Disk Files.FilePath

variable {d e : Disk} {top p : FilePath} {place : Place} {name : String}
  {way above : List String} {content : List UInt8}

theorem below?_eq_some {folder : Place} :
    below? folder place = some way ↔ place = folder ++ way := by
  rw [below?]
  constructor
  · intro h
    split_ifs at h with hprefix
    obtain ⟨rest, rfl⟩ := List.isPrefixOf_iff_prefix.mp hprefix
    rw [List.drop_left] at h
    rw [Option.some.inj h]
  · rintro rfl
    rw [if_pos (List.isPrefixOf_iff_prefix.mpr (List.prefix_append _ _)), List.drop_left]

theorem mem_filesBelow (h : d.IsTree) :
    way ∈ filesBelow d place ↔ ∃ content, d.at? (place ++ way) = some (.file content) := by
  rw [filesBelow, List.mem_filterMap]
  constructor
  · rintro ⟨⟨other, entry⟩, hmem, hway⟩
    cases entry with
    | folder => cases hway
    | file content =>
      rw [← below?_eq_some.mp hway]
      exact ⟨content, h.found _ _ hmem⟩
  · rintro ⟨content, hfile⟩
    exact ⟨_, mem_entries_of_file hfile, below?_eq_some.mpr rfl⟩

theorem nodup_filesBelow (d : Disk) (place : Place) : (filesBelow d place).Nodup := by
  refine (List.pairwise_map.mp d.distinct).filterMap _ ?_
  rintro ⟨first, entry⟩ ⟨second, other⟩ hne way hway more hmore rfl
  cases entry with
  | folder => cases hway
  | file _ =>
    cases other with
    | folder => cases hmore
    | file _ => exact hne ((below?_eq_some.mp hway).trans (below?_eq_some.mp hmore).symm)

/-! ## Names and folders -/

/-- Whether a name is that of an export: it ends in a dot and the extension, and something stands
before them. -/
def NamesExport (name : String) : Prop :=
  ∃ stem extension, stem ≠ "" ∧ name = stem ++ "." ++ extension ∧
    extension.toList.map Char.toLower = "csv".toList

theorem locate_of_isFolder (htop : d.isFolder top) :
    d.locate top = .ok (d.aim top) ∧ d.at? (d.aim top) = some .folder := by
  obtain ⟨place, hplace, hfolder⟩ := isFolder_iff.mp htop
  rw [← eq_aim_of_locate hplace]
  exact ⟨hplace, hfolder⟩

theorem isExport_join (hname : IsName name) : isExport (p.join name) ↔ NamesExport name := by
  have hextension : (p.join name).extension? = (splitName name).2 := by
    rw [extension?, fileName?_join hname.plain hname.not_special, Option.bind_some]
  rw [isExport, hextension, decide_eq_true_iff, Option.map_eq_some_iff]
  constructor
  · rintro ⟨extension, hsplit, hcsv⟩
    rcases splitName_cases name with heq | ⟨stem, found, heq, hwhole, hstem, -⟩
    · rw [heq] at hsplit
      cases hsplit
    · rw [heq] at hsplit
      obtain rfl := Option.some.inj hsplit
      exact ⟨stem, found, hstem, hwhole, hcsv⟩
  · rintro ⟨stem, extension, hstem, rfl, hcsv⟩
    have hdot : '.' ∉ extension.toList := fun hdot ↦ by
      have hlower := List.mem_map_of_mem (f := Char.toLower) hdot
      rw [hcsv] at hlower
      exact absurd hlower (by decide)
    exact ⟨extension, by rw [splitName_append hstem hdot], hcsv⟩

/-- Whether every folder opens by its path, from a folder down to another one. -/
def OpensDownTo (d : Disk) (top : FilePath) (above : List String) : Prop :=
  ∀ way, way <+: above → d.opens (pathBelow top way)

/-- A search comes by a file if every folder on the way down to the file's own folder opens. -/
theorem isReached_concat :
    isReached d top (above ++ [name]) ↔ OpensDownTo d top above := by
  induction above generalizing top with
  | nil => simp [isReached, OpensDownTo, pathBelow]
  | cons first rest ih =>
    rw [List.cons_append, isReached, Bool.and_eq_true, ih]
    constructor
    · rintro ⟨htop, hrest⟩ way hway
      rcases List.prefix_cons_iff.mp hway with rfl | ⟨more, rfl, hmore⟩
      · exact htop
      · exact hrest more hmore
    · intro h
      refine ⟨h [] List.nil_prefix, fun way hway ↦ h (first :: way) ?_⟩
      exact List.cons_prefix_cons.mpr ⟨rfl, hway⟩

/-- A folder of a tree opens if it may be listed and its path is not too long. -/
theorem opens_pathBelow (h : d.IsTree) (htop : d.locate top = .ok place)
    (hfolder : d.at? (place ++ above) = some .folder) :
    d.opens (pathBelow top above) ↔
      size (pathBelow top above).text ≤ longestPath ∧ place ++ above ∉ d.unlisted := by
  rw [opens_iff, locate_pathBelow h htop (by rw [hfolder]; rfl)]
  split_ifs with hlong
  · simp [hlong]
  · simp [hfolder, Nat.not_lt.mp hlong]

/-! ## The ways in order -/

theorem pairwise_mergeSort_wayLe (ways : List (List String)) :
    (ways.mergeSort wayLe).Pairwise (· ≤ ·) := by
  have hsorted : (ways.mergeSort wayLe).Pairwise (wayLe · ·) := by
    apply List.pairwise_mergeSort
    · intro first second third
      rw [wayLe_iff, wayLe_iff, wayLe_iff]
      exact le_trans
    · intro first second
      rw [Bool.or_eq_true, wayLe_iff, wayLe_iff]
      exact le_total first second
  exact hsorted.imp wayLe_iff.mp

theorem mergeSort_wayLe_eq_of_perm {ways more : List (List String)} (h : ways.Perm more) :
    ways.mergeSort wayLe = more.mergeSort wayLe := by
  have hperm : (ways.mergeSort wayLe).Perm (more.mergeSort wayLe) :=
    (List.mergeSort_perm ways wayLe).trans (h.trans (List.mergeSort_perm more wayLe).symm)
  exact hperm.eq_of_pairwise (fun _ _ _ _ ↦ le_antisymm) (pairwise_mergeSort_wayLe ways)
    (pairwise_mergeSort_wayLe more)

/-- The ways down to the files that a search comes by, in order. -/
def waysReached (d : Disk) (top : FilePath) : List (List String) :=
  ((filesBelow d (d.aim top)).filter (isReached d top)).mergeSort wayLe

theorem pairwise_waysReached (d : Disk) (top : FilePath) :
    (waysReached d top).Pairwise (· < ·) := by
  have hnodup : (waysReached d top).Nodup :=
    (List.mergeSort_perm _ _).nodup_iff.mpr ((nodup_filesBelow d _).filter _)
  exact ((pairwise_mergeSort_wayLe _).and hnodup).imp fun h ↦ lt_of_le_of_ne h.1 h.2

theorem mem_waysReached (h : d.IsTree) (htop : d.isFolder top) :
    way ∈ waysReached d top ↔ ∃ above name content, way = above ++ [name] ∧
      d.at? (d.aim top ++ way) = some (.file content) ∧ OpensDownTo d top above := by
  obtain ⟨hlocate, hfolder⟩ := locate_of_isFolder htop
  rw [waysReached, List.mem_mergeSort, List.mem_filter, mem_filesBelow h]
  constructor
  · rintro ⟨⟨content, hfile⟩, hreached⟩
    rcases List.eq_nil_or_concat' way with rfl | ⟨above, name, rfl⟩
    · rw [List.append_nil, hfolder] at hfile
      cases hfile
    · exact ⟨above, name, content, rfl, hfile, isReached_concat.mp hreached⟩
  · rintro ⟨above, name, content, rfl, hfile, hopens⟩
    exact ⟨⟨content, hfile⟩, isReached_concat.mpr hopens⟩

theorem findExports_eq (htop : d.isFolder top) :
    findExports d top = ((waysReached d top).map (pathBelow top)).filter isExport := by
  obtain ⟨hlocate, hfolder⟩ := locate_of_isFolder htop
  have hfind : d.find top = .ok .folder := by
    rw [Disk.find, hlocate]
    simp [bind, Except.bind, hfolder]
  rw [findExports, hfind, hlocate]
  rfl

/-! ## What is found -/

theorem mem_findExports (h : d.IsTree) (htop : d.isFolder top) :
    p ∈ findExports d top ↔ ∃ above name content,
      d.at? (d.aim top ++ above ++ [name]) = some (.file content) ∧ NamesExport name ∧
        OpensDownTo d top above ∧ p = pathBelow top (above ++ [name]) := by
  rw [findExports_eq htop, List.mem_filter, List.mem_map]
  constructor
  · rintro ⟨⟨way, hway, rfl⟩, hexport⟩
    obtain ⟨above, name, content, rfl, hfile, hopens⟩ := (mem_waysReached h htop).mp hway
    have hname : IsName name := h.isName_of_mem (by rw [hfile]; rfl) (by simp)
    rw [pathBelow_concat, isExport_join hname] at hexport
    exact ⟨above, name, content, by rwa [List.append_assoc], hexport, hopens, rfl⟩
  · rintro ⟨above, name, content, hfile, hexport, hopens, rfl⟩
    rw [List.append_assoc] at hfile
    have hname : IsName name := h.isName_of_mem (by rw [hfile]; rfl) (by simp)
    refine ⟨⟨_, (mem_waysReached h htop).mpr ⟨above, name, content, rfl, hfile, hopens⟩, rfl⟩, ?_⟩
    rwa [pathBelow_concat, isExport_join hname]

theorem pairwise_findExports (h : d.IsTree) (htop : d.isFolder top) :
    (findExports d top).Pairwise FilePath.Before := by
  have hnames : ∀ way ∈ waysReached d top, ∀ name ∈ way, IsName name := by
    intro way hway name hname
    obtain ⟨_, _, content, -, hfile, -⟩ := (mem_waysReached h htop).mp hway
    exact h.isName_of_mem (by rw [hfile]; rfl) hname
  rw [findExports_eq htop]
  refine List.Pairwise.filter _ (List.pairwise_map.mpr ?_)
  exact (pairwise_waysReached d top).imp_of_mem fun hfirst hsecond hlt ↦
    before_pathBelow hlt (hnames _ hfirst) (hnames _ hsecond)

theorem nodup_findExports (h : d.IsTree) (htop : d.isFolder top) : (findExports d top).Nodup := by
  refine (pairwise_findExports h htop).imp ?_
  rintro p _ hbefore rfl
  exact FilePath.Before.irrefl p hbefore

section SameEntries

variable (hhere : e.here = d.here) (hentries : e.entries.Perm d.entries)
  (hunlisted : ∀ place, place ∈ e.unlisted ↔ place ∈ d.unlisted)
include hhere hentries hunlisted

theorem findExports_of_perm (top : FilePath) : findExports e top = findExports d top := by
  have hsame := sameEntries_of_perm hhere hentries
  have hreached : isReached e = isReached d := by
    funext top way
    induction way generalizing top with
    | nil => rfl
    | cons name rest ih => rw [isReached, isReached, hsame.opens_eq hunlisted, ih]
  have hways (place : Place) : ((filesBelow e place).filter (isReached d top)).mergeSort wayLe =
      ((filesBelow d place).filter (isReached d top)).mergeSort wayLe :=
    mergeSort_wayLe_eq_of_perm ((hentries.filterMap _).filter _)
  simp only [findExports, hsame.find_eq, hsame.locate_eq, hreached, hways]

theorem contents_of_perm (s : Source) : contents e s = contents d s := by
  have hsame := sameEntries_of_perm hhere hentries
  have hread : readListed e = readListed d := by
    funext provider paths
    simp only [readListed, hsame.read_eq]
  simp only [contents, hread, hsame.isFolder_eq, findExports_of_perm hhere hentries hunlisted]

end SameEntries

/-! ## Paths that are too long -/

/-- A path that stays where it is for some steps and goes on from there. -/
def detour (text : String) : Nat → String
  | 0 => text
  | steps + 1 => "./" ++ detour text steps

variable {text : String} {steps : Nat}

theorem size_append (text more : String) : size (text ++ more) = size text + size more := by
  rw [size, size, size, Text.Utf8.encode_append, List.length_append]

theorem size_join (p : FilePath) (name : String) :
    size p.text + size name ≤ size (p.join name).text ∧
      size (p.join name).text ≤ size p.text + 1 + size name := by
  have hslash : size "/" = 1 := by decide
  rcases p.join_cases name with heq | heq <;> rw [heq, size_append]
  · omega
  · rw [size_append, hslash]
    omega

theorem size_detour : size (detour text steps) = 2 * steps + size text := by
  have hdot : size "./" = 2 := by decide
  induction steps with
  | zero => rw [detour, Nat.mul_zero, Nat.zero_add]
  | succ steps ih =>
    rw [detour, size_append, ih, hdot]
    omega

theorem locate_dot (hrelative : ¬ (⟨text⟩ : FilePath).isAbsolute) (hne : text ≠ "")
    (hsize : 2 + size text ≤ longestPath) : d.locate ⟨"./" ++ text⟩ = d.locate ⟨text⟩ := by
  have hnames : (⟨"./" ++ text⟩ : FilePath).names = "." :: (⟨text⟩ : FilePath).names := by
    simp [names, pieces, splitSlashes]
  have hnull : (⟨"./" ++ text⟩ : FilePath).holdsNull = (⟨text⟩ : FilePath).holdsNull := by
    simp [holdsNull]
  have hrelative' : ¬ (⟨"./" ++ text⟩ : FilePath).isAbsolute := by simp [isAbsolute]
  have hne' : "./" ++ text ≠ "" := by simp [← String.toList_inj]
  have hsize' : ¬ longestPath < size ("./" ++ text) := by
    rw [size_append]
    exact Nat.not_lt.mpr hsize
  have hdot : d.enter d.here "." = .ok d.here := by
    rw [enter, at?_of_isPrefixOf (List.isPrefixOf_iff_prefix.mpr List.prefix_rfl)]
    rfl
  rw [locate, locate, hnull, hnames, if_neg hrelative, if_neg hrelative', if_neg hsize',
    if_neg (Nat.not_lt.mpr ((Nat.le_add_left _ _).trans hsize)), if_neg hne, if_neg hne',
    List.foldlM_cons, hdot]
  rfl

/-- Staying makes no difference, unless the path becomes too long. -/
theorem locate_detour (hrelative : ¬ (⟨text⟩ : FilePath).isAbsolute) (hne : text ≠ "")
    (hsize : 2 * steps + size text ≤ longestPath) :
    d.locate ⟨detour text steps⟩ = d.locate ⟨text⟩ := by
  induction steps with
  | zero => rfl
  | succ steps ih =>
    have hshort : 2 + size (detour text steps) ≤ longestPath := by
      rw [size_detour]
      omega
    have hstill : ¬ (⟨detour text steps⟩ : FilePath).isAbsolute ∧ detour text steps ≠ "" := by
      cases steps with
      | zero => exact ⟨hrelative, hne⟩
      | succ steps => simp [isAbsolute, detour, ← String.toList_inj]
    rw [detour, locate_dot hstill.1 hstill.2 hshort, ih (by omega)]

/-- A folder with an export at each of two depths. -/
def deepTree : Disk :=
  ((((⟨["work"], [], [], [], List.nodup_nil⟩ : Disk).put ["work", "in"] .folder).put
    ["work", "in", "bbbbbbbbb"] .folder).put ["work", "in", "bbbbbbbbb", "c.csv"] (.file [50])).put
    ["work", "in", "a.csv"] (.file [49])

theorem isTree_deepTree : deepTree.IsTree := by
  refine .put ?_ ⟨⟨["work", "in"], "a.csv", rfl, by decide, by decide⟩, by decide⟩
  refine .put ?_ ⟨⟨["work", "in", "bbbbbbbbb"], "c.csv", rfl, by decide, by decide⟩, by decide⟩
  refine .put ?_ ⟨⟨["work", "in"], "bbbbbbbbb", rfl, by decide, by decide⟩, by decide⟩
  refine .put ?_ ⟨⟨["work"], "in", rfl, by decide, by decide⟩, by decide⟩
  exact isTree_empty (by decide)

theorem size_export_deepTree (steps : Nat) :
    2 * steps + 7 ≤ size (pathBelow ⟨detour "in" steps⟩ ["a.csv"]).text ∧
      size (pathBelow ⟨detour "in" steps⟩ ["a.csv"]).text ≤ 2 * steps + 8 := by
  have hjoin := size_join ⟨detour "in" steps⟩ "a.csv"
  rwa [show size (detour "in" steps) = 2 * steps + 2 from size_detour] at hjoin

section DeepTree

variable (hsize : 2 * steps + 2 ≤ longestPath)
include hsize

theorem locate_deepTree : deepTree.locate ⟨detour "in" steps⟩ = .ok ["work", "in"] := by
  rw [locate_detour (by decide) (by decide) hsize]
  decide +kernel

theorem isFolder_deepTree : deepTree.isFolder ⟨detour "in" steps⟩ :=
  isFolder_iff.mpr ⟨_, locate_deepTree hsize, by decide⟩

/-- If the path of the folder within is too long, the export there is passed over. -/
theorem findExports_deepTree (hlong : longestPath < 2 * steps + 11) :
    findExports deepTree ⟨detour "in" steps⟩ = [pathBelow ⟨detour "in" steps⟩ ["a.csv"]] := by
  have hlocate := locate_deepTree hsize
  have hfiles : filesBelow deepTree ["work", "in"] = [["a.csv"], ["bbbbbbbbb", "c.csv"]] := by
    decide +kernel
  have hdetour : size (detour "in" steps) = 2 * steps + 2 := size_detour
  have hnear : isReached deepTree ⟨detour "in" steps⟩ ["a.csv"] := by
    rw [← List.nil_append ["a.csv"], isReached_concat]
    intro way hway
    obtain rfl := List.prefix_nil.mp hway
    have hfolder : deepTree.at? (["work", "in"] ++ []) = some .folder := by decide
    exact (opens_pathBelow isTree_deepTree hlocate hfolder).mpr ⟨hdetour.trans_le hsize, by decide⟩
  have hfar : ¬ isReached deepTree ⟨detour "in" steps⟩ ["bbbbbbbbb", "c.csv"] := by
    have hfolder : deepTree.at? (["work", "in"] ++ ["bbbbbbbbb"]) = some .folder := by decide
    have hname : size "bbbbbbbbb" = 9 := by decide
    have hbelow := (size_join ⟨detour "in" steps⟩ "bbbbbbbbb").1
    rw [hdetour, hname] at hbelow
    intro hreached
    have hopens := isReached_concat.mp hreached ["bbbbbbbbb"] List.prefix_rfl
    have hshort := ((opens_pathBelow isTree_deepTree hlocate hfolder).mp hopens).1
    exact absurd hshort (Nat.not_le.mpr (hlong.trans_le hbelow))
  have hways : waysReached deepTree ⟨detour "in" steps⟩ = [["a.csv"]] := by
    rw [waysReached, ← eq_aim_of_locate hlocate, hfiles, List.filter_cons_of_pos hnear,
      List.filter_cons_of_neg hfar]
    exact List.mergeSort_singleton _
  have hexport : isExport (pathBelow ⟨detour "in" steps⟩ ["a.csv"]) :=
    (isExport_join (by decide)).mpr ⟨"a", "csv", by decide, by decide, by decide⟩
  rw [findExports_eq (isFolder_deepTree hsize), hways, List.map_singleton,
    List.filter_cons_of_pos hexport]
  rfl

end DeepTree

/-! ## What is read -/

variable {provider : Provider} {before after : List FilePath}

theorem contents_folder (htop : d.isFolder top) (hne : findExports d top ≠ []) :
    contents d ⟨provider, .folder top⟩ = readListed d provider (findExports d top) := by
  simp only [contents, htop]
  cases hfound : findExports d top with
  | nil => exact absurd hfound hne
  | cons p rest => rfl

/-- What is fetched is what is read from the paths found, in their order; there has to be one, and
each has to be read. -/
theorem contents_eq_ok (htop : d.isFolder top) {results : List (List UInt8)} :
    contents d ⟨provider, .folder top⟩ = .ok results ↔ findExports d top ≠ [] ∧
      List.Forall₂ (fun p content ↦ d.read p = .ok content) (findExports d top) results := by
  by_cases hne : findExports d top = []
  · simp [contents, htop, hne]
  · rw [contents_folder htop hne, readListed, mapM_eq_ok]
    constructor
    · intro hall
      refine ⟨hne, hall.imp fun p content hcontent ↦ ?_⟩
      cases hp : d.read p with
      | ok found =>
        rw [hp] at hcontent
        cases hcontent
        rfl
      | error o =>
        rw [hp] at hcontent
        cases hcontent
    · rintro ⟨-, hall⟩
      exact hall.imp fun p content hp ↦ by rw [hp]

/-- The first path found that is not read ends the reading. -/
theorem contents_of_unreadable {o : Obstacle} (htop : d.isFolder top)
    (hfound : findExports d top = before ++ p :: after)
    (hbefore : ∀ q ∈ before, ∃ content, d.read q = .ok content) (hp : d.read p = .error o) :
    contents d ⟨provider, .folder top⟩ = .error (.fetch provider (.file p o)) := by
  rw [contents_folder htop (by simp [hfound]), hfound, readListed]
  refine mapM_of_error (fun q hq ↦ ?_) (by rw [hp]) after
  obtain ⟨content, hq'⟩ := hbefore q hq
  exact ⟨content, by rw [hq']⟩

/-- A search of a folder in a tree finds the exports at any depth that lie in folders that open,
down from the first one: each once and in the order of their paths, in whatever order the disk lists
its entries.  A folder opens if it may be listed and its path is not too long.  What is found is read
in this order; that none is found, or which is the first that cannot be read, is reported. -/
theorem findExports_exact (h : d.IsTree) (htop : d.isFolder top) (provider : Provider) :
    (∀ p, p ∈ findExports d top ↔ ∃ above name content,
      d.at? (d.aim top ++ above ++ [name]) = some (.file content) ∧ NamesExport name ∧
        OpensDownTo d top above ∧ p = pathBelow top (above ++ [name])) ∧
    (∀ above, d.at? (d.aim top ++ above) = some .folder →
      (d.opens (pathBelow top above) ↔
        size (pathBelow top above).text ≤ longestPath ∧ d.aim top ++ above ∉ d.unlisted)) ∧
    (findExports d top).Nodup ∧ (findExports d top).Pairwise FilePath.Before ∧
    (∀ e : Disk, e.here = d.here → e.entries.Perm d.entries →
      (∀ place, place ∈ e.unlisted ↔ place ∈ d.unlisted) →
        findExports e top = findExports d top ∧
          contents e ⟨provider, .folder top⟩ = contents d ⟨provider, .folder top⟩) ∧
    (findExports d top = [] →
      contents d ⟨provider, .folder top⟩ = .error (.fetch provider (.noExports top))) ∧
    (∀ results, contents d ⟨provider, .folder top⟩ = .ok results ↔ findExports d top ≠ [] ∧
      List.Forall₂ (fun p content ↦ d.read p = .ok content) (findExports d top) results) ∧
    (∀ before p after o, findExports d top = before ++ p :: after →
      (∀ q ∈ before, ∃ content, d.read q = .ok content) → d.read p = .error o →
        contents d ⟨provider, .folder top⟩ = .error (.fetch provider (.file p o))) ∧
    ∀ above name content, d.at? (d.aim top ++ (above ++ [name])) = some (.file content) →
      d.read (pathBelow top (above ++ [name])) =
        if longestPath < size (pathBelow top (above ++ [name])).text then .error .tooLong
        else .ok content := by
  have hlocate := (locate_of_isFolder htop).1
  refine ⟨fun p ↦ mem_findExports h htop, fun above ↦ opens_pathBelow h hlocate,
    nodup_findExports h htop, pairwise_findExports h htop, ?_, ?_,
    fun results ↦ contents_eq_ok htop, fun before p after o ↦ contents_of_unreadable htop,
    fun above name content ↦ read_pathBelow h hlocate⟩
  · intro e hhere hentries hunlisted
    exact ⟨findExports_of_perm hhere hentries hunlisted top,
      contents_of_perm hhere hentries hunlisted _⟩
  · intro hnone
    simp [contents, htop, hnone]

/-- A folder that is named like an export and holds one, a file that would come before it if paths
were compared as texts, and a file that is named by the extension alone. -/
def sampleTree : Disk :=
  (((((⟨["work"], [], [], [], List.nodup_nil⟩ : Disk).put ["work", "in"] .folder).put
    ["work", "in", "a.csv"] .folder).put ["work", "in", "a.csv-.csv"] (.file [45])).put
    ["work", "in", "a.csv", "B.CSV"] (.file [66])).put ["work", "in", ".csv"] (.file [46])

theorem isTree_sampleTree : sampleTree.IsTree := by
  refine .put ?_ ⟨⟨["work", "in"], ".csv", rfl, by decide, by decide⟩, by decide⟩
  refine .put ?_ ⟨⟨["work", "in", "a.csv"], "B.CSV", rfl, by decide, by decide⟩, by decide⟩
  refine .put ?_ ⟨⟨["work", "in"], "a.csv-.csv", rfl, by decide, by decide⟩, by decide⟩
  refine .put ?_ ⟨⟨["work", "in"], "a.csv", rfl, by decide, by decide⟩, by decide⟩
  refine .put ?_ ⟨⟨["work"], "in", rfl, by decide, by decide⟩, by decide⟩
  exact isTree_empty (by decide)

theorem findExports_sampleTree :
    findExports sampleTree ⟨"in"⟩ = [⟨"in/a.csv/B.CSV"⟩, ⟨"in/a.csv-.csv"⟩] := by
  have hways : waysReached sampleTree ⟨"in"⟩ = [[".csv"], ["a.csv", "B.CSV"], ["a.csv-.csv"]] :=
    (List.mergeSort_of_pairwise (by decide +kernel)).trans (by decide +kernel)
  rw [findExports_eq (by decide +kernel), hways]
  decide +kernel

/-- A folder with an export, and a folder beside it with another one. -/
def openTree : Disk :=
  ((((⟨["work"], [], [], [], List.nodup_nil⟩ : Disk).put ["work", "in"] .folder).put
    ["work", "in", "secret"] .folder).put ["work", "in", "secret", "b.csv"] (.file [66])).put
    ["work", "in", "a.csv"] (.file [65])

/-- The same, but that the folder beside may not be listed. -/
def secretTree : Disk := { openTree with unlisted := [["work", "in", "secret"]] }

theorem isTree_openTree : openTree.IsTree := by
  refine .put ?_ ⟨⟨["work", "in"], "a.csv", rfl, by decide, by decide⟩, by decide⟩
  refine .put ?_ ⟨⟨["work", "in", "secret"], "b.csv", rfl, by decide, by decide⟩, by decide⟩
  refine .put ?_ ⟨⟨["work", "in"], "secret", rfl, by decide, by decide⟩, by decide⟩
  refine .put ?_ ⟨⟨["work"], "in", rfl, by decide, by decide⟩, by decide⟩
  exact isTree_empty (by decide)

theorem isTree_secretTree : secretTree.IsTree :=
  ⟨isTree_openTree.found, isTree_openTree.within⟩

theorem findExports_secretTree : findExports secretTree ⟨"in"⟩ = [⟨"in/a.csv"⟩] := by
  have hways : waysReached secretTree ⟨"in"⟩ = [["a.csv"]] :=
    (List.mergeSort_of_pairwise (by decide +kernel)).trans (by decide +kernel)
  rw [findExports_eq (by decide +kernel), hways]
  decide +kernel

/-- The order is that of the components, not that of the texts; and the search passes over what it
may not list, and ends at a path that is too long. -/
theorem findExports_exact_sampleTree :
    (sampleTree.IsTree ∧ sampleTree.isFolder ⟨"in"⟩ ∧ "in/a.csv-.csv" < "in/a.csv/B.CSV" ∧
      (⟨"in/a.csv/B.CSV"⟩ : FilePath).Before ⟨"in/a.csv-.csv"⟩ ∧
      findExports ⟨["work"], sampleTree.entries.reverse, [], [], by decide⟩ ⟨"in"⟩ =
        [⟨"in/a.csv/B.CSV"⟩, ⟨"in/a.csv-.csv"⟩] ∧
      contents sampleTree ⟨.gcp, .folder ⟨"in"⟩⟩ = .ok [[66], [45]]) ∧
    (deepTree.IsTree ∧ deepTree.isFolder ⟨detour "in" 2045⟩ ∧
      contents deepTree ⟨.gcp, .folder ⟨detour "in" 2045⟩⟩ =
        .error (.fetch .gcp (.file (pathBelow ⟨detour "in" 2045⟩ ["a.csv"]) .tooLong))) := by
  constructor
  · have hfolder : sampleTree.isFolder ⟨"in"⟩ := by decide +kernel
    obtain ⟨-, -, -, hordered, hentries, -, hread, -⟩ :=
      findExports_exact isTree_sampleTree hfolder .gcp
    rw [findExports_sampleTree] at hordered hread
    have hreversed := (hentries ⟨["work"], sampleTree.entries.reverse, [], [], by decide⟩ rfl
      (List.reverse_perm _) (fun _ ↦ Iff.rfl)).1
    refine ⟨isTree_sampleTree, hfolder, by decide, List.rel_of_pairwise_cons hordered (by simp),
      hreversed.trans findExports_sampleTree, (hread _).mpr ⟨by simp, ?_⟩⟩
    exact .cons (by decide +kernel) (.cons (by decide +kernel) .nil)
  · have hfolder := isFolder_deepTree (show 2 * 2045 + 2 ≤ longestPath by decide)
    have hfound := findExports_deepTree (show 2 * 2045 + 2 ≤ longestPath by decide) (by decide)
    have hlong : longestPath < size (pathBelow ⟨detour "in" 2045⟩ ["a.csv"]).text :=
      lt_of_lt_of_le (by decide) (size_export_deepTree 2045).1
    obtain ⟨-, -, -, -, -, -, -, hfails, hreads⟩ := findExports_exact isTree_deepTree hfolder .gcp
    have hfile : deepTree.at? (deepTree.aim ⟨detour "in" 2045⟩ ++ ([] ++ ["a.csv"])) =
        some (.file [49]) := by
      rw [← eq_aim_of_locate (locate_deepTree (by decide))]
      decide
    have hread := hreads [] "a.csv" [49] hfile
    rw [List.nil_append, if_pos hlong] at hread
    exact ⟨isTree_deepTree, hfolder, hfails [] _ [] _ hfound (by simp) hread⟩

/-- An export that is there is not found, because a folder may not be listed or has a path that is
too long, and the search does not say so. -/
theorem findExports_incomplete :
    (secretTree.IsTree ∧ secretTree.isFolder ⟨"in"⟩ ∧
      secretTree.at? (secretTree.aim ⟨"in"⟩ ++ ["secret", "b.csv"]) = some (.file [66]) ∧
      NamesExport "b.csv" ∧ pathBelow ⟨"in"⟩ ["secret", "b.csv"] ∉ findExports secretTree ⟨"in"⟩ ∧
      contents secretTree ⟨.gcp, .folder ⟨"in"⟩⟩ = .ok [[65]]) ∧
    (deepTree.IsTree ∧ deepTree.isFolder ⟨detour "in" 2043⟩ ∧
      deepTree.at? (deepTree.aim ⟨detour "in" 2043⟩ ++ ["bbbbbbbbb", "c.csv"]) =
        some (.file [50]) ∧ NamesExport "c.csv" ∧
      pathBelow ⟨detour "in" 2043⟩ ["bbbbbbbbb", "c.csv"] ∉
        findExports deepTree ⟨detour "in" 2043⟩ ∧
      contents deepTree ⟨.gcp, .folder ⟨detour "in" 2043⟩⟩ = .ok [[49]]) := by
  constructor
  · have hfolder : secretTree.isFolder ⟨"in"⟩ := by decide +kernel
    refine ⟨isTree_secretTree, hfolder, by decide +kernel,
      ⟨"b", "csv", by decide, by decide, by decide⟩, ?_, ?_⟩
    · rw [findExports_secretTree]
      decide +kernel
    · rw [contents_eq_ok hfolder, findExports_secretTree]
      exact ⟨by simp, .cons (by decide +kernel) .nil⟩
  · have hsize : 2 * 2043 + 2 ≤ longestPath := by decide
    have hlocate := locate_deepTree hsize
    have hfound := findExports_deepTree hsize (by decide)
    refine ⟨isTree_deepTree, isFolder_deepTree hsize, ?_,
      ⟨"c", "csv", by decide, by decide, by decide⟩, ?_, ?_⟩
    · rw [← eq_aim_of_locate hlocate]
      decide
    · rw [hfound, List.mem_singleton]
      intro heq
      have hnames := congrArg FilePath.names heq
      rw [names_pathBelow (by decide), names_pathBelow (by decide)] at hnames
      exact absurd (List.append_cancel_left hnames) (by decide)
    · have hfile : deepTree.at? (["work", "in"] ++ ([] ++ ["a.csv"])) = some (.file [49]) := by
        decide
      have hread := read_pathBelow isTree_deepTree hlocate hfile
      have hshort : ¬ longestPath < size (pathBelow ⟨detour "in" 2043⟩ ["a.csv"]).text :=
        Nat.not_lt.mpr ((size_export_deepTree 2043).2.trans (by decide))
      rw [List.nil_append, if_neg hshort] at hread
      rw [contents_eq_ok (isFolder_deepTree hsize), hfound]
      exact ⟨by simp, .cons hread .nil⟩

end Source

end CloudLedger
