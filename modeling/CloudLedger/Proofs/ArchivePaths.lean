import CloudLedger.Archive
import CloudLedger.Proofs.Calendar
import CloudLedger.Proofs.Identity
import CloudLedger.Proofs.Walking
import Mathlib.Data.List.GetD
import Mathlib.Data.List.Nodup

/-!
# Where archived tables lie

The place that a path names is found name by name, without a look at what is there; if the path
leads anywhere, it leads to this place.  A path within a folder names a place in the folder's place,
and so does its draft.

Every month of every year has a file of its own, whose name ends otherwise than that of any draft.
-/

namespace CloudLedger

namespace Files

/-! ## Files within a folder -/

namespace FilePath

variable {p : FilePath} {name stem extension : String}

theorem pieces_append_slash (text : String) (hplain : '/' ∉ name.toList) :
    (⟨text ++ "/" ++ name⟩ : FilePath).pieces = (⟨text⟩ : FilePath).pieces ++ [name] := by
  have htext : (text ++ "/" ++ name).toList = text.toList ++ '/' :: name.toList := by simp
  have hname : (['/'].intercalate [name.toList]).splitOn '/' = [name.toList] :=
    List.splitOn_intercalate '/' (by simpa using hplain) (List.cons_ne_nil name.toList [])
  rw [List.intercalate_singleton] at hname
  rw [pieces, pieces, splitSlashes_eq_splitOn, splitSlashes_eq_splitOn, htext, List.splitOn,
    List.splitOnP_append_cons _ _ (by simp), List.map_append]
  change _ ++ (name.toList.splitOn '/').map String.ofList = _
  rw [hname, List.map_singleton, String.ofList_toList]
  rfl

/-- A slash at the end of a path makes no difference to its names. -/
theorem exists_of_endsInSlash (h : p.endsInSlash) :
    ∃ text, p.text = text ++ "/" ∧ (⟨text⟩ : FilePath).names = p.names := by
  obtain ⟨init, hinit⟩ : ∃ init, p.text.toList = init ++ ['/'] := by
    rw [endsInSlash, decide_eq_true_iff] at h
    exact List.getLast?_eq_some_iff.mp h
  have htext : p.text = String.ofList init ++ "/" := by
    rw [← String.toList_inj, hinit, String.toList_append, String.toList_ofList]
    rfl
  have hpieces : p.pieces = (⟨String.ofList init⟩ : FilePath).pieces ++ [""] := by
    rw [← pieces_append_slash _ (by simp), String.append_empty, ← htext]
  refine ⟨String.ofList init, htext, ?_⟩
  rw [names_eq, names_eq, hpieces, spoken_append]
  exact (List.append_nil _).symm

section Joining

variable (hplain : '/' ∉ name.toList)
include hplain

/-- A name is put behind the pieces of its folder. -/
theorem pieces_join :
    ∃ before, (p.join name).pieces = before ++ [name] ∧ spoken before = p.names := by
  by_cases hempty : p.text = ""
  · obtain rfl : p = ⟨""⟩ := congrArg FilePath.mk hempty
    have hjoin : (⟨""⟩ : FilePath).join name = ⟨joinSlashes [name]⟩ := by
      rw [joinSlashes, List.map_singleton, List.intercalate_singleton, String.ofList_toList]
      simp [join]
    rw [hjoin]
    exact ⟨[], pieces_joinSlashes (List.cons_ne_nil name []) (by simpa using hplain), rfl⟩
  · by_cases hslash : p.endsInSlash
    · obtain ⟨text, htext, hnames⟩ := exists_of_endsInSlash hslash
      refine ⟨(⟨text⟩ : FilePath).pieces, ?_, hnames⟩
      rw [join, if_pos (.inr hslash), htext]
      exact pieces_append_slash _ hplain
    · refine ⟨p.pieces, ?_, rfl⟩
      rw [join, if_neg (not_or.mpr ⟨hempty, hslash⟩)]
      exact pieces_append_slash _ hplain

theorem names_join (hne : name ≠ "") : (p.join name).names = p.names ++ [name] := by
  obtain ⟨before, hpieces, hbefore⟩ := pieces_join (p := p) hplain
  rw [names_eq, hpieces, spoken_append, hbefore, spoken_cons hne]
  rfl

theorem isAbsolute_join : (p.join name).isAbsolute = p.isAbsolute := by
  by_cases hempty : p.text = ""
  · have hhead : name.toList.head? ≠ some '/' := fun h ↦ hplain (List.mem_of_head? h)
    simp [isAbsolute, join, hempty, hhead]
  · have hhead : ∀ more : String, (p.text ++ more).toList.head? = p.text.toList.head? := by
      intro more
      rw [String.toList_append, List.head?_append_of_ne_nil]
      simpa using hempty
    rw [isAbsolute, isAbsolute, join]
    split_ifs
    · rw [hhead]
    · rw [String.append_assoc, hhead]

variable (hname : name ∉ ["", ".", ".."])
include hname

/-- The last piece of a path within a folder is the name, and the folder is in front of it. -/
theorem last_join : (p.join name).last = name ∧ spoken (p.join name).front = p.names := by
  obtain ⟨before, hpieces, hbefore⟩ := pieces_join (p := p) hplain
  obtain ⟨silent, hparts, hsilent⟩ := (p.join name).pieces_eq
  rcases List.eq_nil_or_concat' silent with rfl | ⟨init, other, rfl⟩
  · have hends := List.append_inj' (hparts.symm.trans hpieces) rfl
    exact ⟨List.singleton_inj.mp hends.2, hends.1 ▸ hbefore⟩
  · rw [← List.cons_append, ← List.append_assoc] at hparts
    have hends := (List.append_inj' (hparts.symm.trans hpieces) rfl).2
    have hother := hsilent other (List.mem_append_right init List.mem_cons_self)
    rw [List.singleton_inj.mp hends] at hother
    exact absurd hother (by simp_all [IsSilent])

theorem fileName?_join : (p.join name).fileName? = some name := by
  rw [fileName?_eq, (last_join hplain hname).1, if_neg hname]

end Joining

/-- A name is split at the dot that its extension is put behind. -/
theorem splitName_append (hstem : stem ≠ "") (hdot : '.' ∉ extension.toList) :
    splitName (stem ++ "." ++ extension) = (stem, some extension) := by
  have hchars : (stem ++ "." ++ extension).toList = stem.toList ++ '.' :: extension.toList := by
    simp
  have hafter : (stem ++ "." ++ extension).toList.rtakeWhile (fun c ↦ c ≠ '.') =
      extension.toList := by
    have hall : ∀ c ∈ extension.toList.reverse, decide (c ≠ '.') := by
      intro c hc
      simpa using fun h : c = '.' ↦ hdot (h ▸ List.mem_reverse.mp hc)
    rw [hchars, List.rtakeWhile, List.reverse_append, List.reverse_cons, List.append_assoc,
      List.takeWhile_append_of_pos hall, List.singleton_append,
      List.takeWhile_cons_of_neg (by simp), List.append_nil, List.reverse_reverse]
  have htake : (stem ++ "." ++ extension).toList.take
      ((stem ++ "." ++ extension).toList.length - extension.toList.length - 1) = stem.toList := by
    have hlength : (stem.toList ++ '.' :: extension.toList).length - extension.toList.length - 1 =
        stem.toList.length := by
      rw [List.length_append, List.length_cons]
      omega
    rw [hchars, hlength, List.take_left]
  rw [splitName_eq hafter, htake, if_neg (by simpa using hstem), String.ofList_toList,
    String.ofList_toList]

end FilePath

/-! ## The place that a path names -/

namespace Disk

variable {d e f : Disk} {p q : FilePath} {name : String} {place : Place} {content : List UInt8}

/-- The place that a name leads to from another one. -/
def turn (place : Place) (name : String) : Place :=
  if name = "." then place else if name = ".." then place.dropLast else place ++ [name]

/-- The place that a path names, wherever there are folders. -/
def aim (d : Disk) (p : FilePath) : Place :=
  p.names.foldl turn (if p.isAbsolute then [] else d.here)

theorem aim_congr (hhere : e.here = d.here) (p : FilePath) : e.aim p = d.aim p := by
  rw [aim, aim, hhere]

theorem eq_turn_of_enter {next : Place} (h : d.enter place name = .ok next) :
    next = turn place name := by
  unfold turn
  rcases enter_cases h with ⟨rfl, rfl⟩ | ⟨rfl, rfl⟩ | ⟨hdot, hup, rfl⟩
  · rfl
  · rfl
  · rw [if_neg hdot, if_neg hup]

/-- If a path leads anywhere, it leads to the place that it names. -/
theorem eq_aim_of_locate (h : d.locate p = .ok place) : place = d.aim p := by
  obtain ⟨-, -, -, hwalk⟩ := locate_eq_ok.mp h
  unfold aim
  generalize (if p.isAbsolute then [] else d.here) = start at hwalk ⊢
  generalize p.names = names at hwalk ⊢
  induction names generalizing start with
  | nil =>
    cases hwalk
    rfl
  | cons name rest ih =>
    obtain ⟨next, hnext, hrest⟩ := walk_cons_eq_ok.mp hwalk
    rw [List.foldl_cons, ← eq_turn_of_enter hnext]
    exact ih next hrest

theorem aim_append (hnames : q.names = p.names ++ [name]) (habsolute : q.isAbsolute = p.isAbsolute)
    (hname : name ∉ ["", ".", ".."]) : d.aim q = d.aim p ++ [name] := by
  have hturn : turn (d.aim p) name = d.aim p ++ [name] := by
    simp only [List.mem_cons, List.not_mem_nil, or_false, not_or] at hname
    rw [turn, if_neg hname.2.1, if_neg hname.2.2]
  rw [← hturn, aim, aim, hnames, habsolute, List.foldl_append]
  rfl

/-- The content of the file at the place that a path names. -/
def held (d : Disk) (p : FilePath) : Option (List UInt8) :=
  match d.at? (d.aim p) with
  | some (.file content) => some content
  | _ => none

theorem held_eq_some : d.held p = some content ↔ d.at? (d.aim p) = some (.file content) := by
  unfold held
  split
  · rename_i h
    simp [h]
  · rename_i h
    simpa using h content

theorem held_of_read (h : d.read p = .ok content) : d.held p = some content := by
  obtain ⟨place, ⟨hplace, -⟩, hfile⟩ := accepts_of_read h
  rw [held_eq_some, ← eq_aim_of_locate hplace, hfile]

/-- Whether a path names the same file on both disks, which can still be read if it could. -/
structure KeepsFile (p : FilePath) (d e : Disk) : Prop where
  held_eq : e.held p = d.held p
  read_eq : ∀ content, d.read p = .ok content → e.read p = .ok content

theorem KeepsFile.refl (p : FilePath) (d : Disk) : KeepsFile p d d := ⟨rfl, fun _ ↦ id⟩

theorem KeepsFile.trans (hde : KeepsFile p d e) (hef : KeepsFile p e f) : KeepsFile p d f where
  held_eq := hef.held_eq.trans hde.held_eq
  read_eq content hread := hef.read_eq content (hde.read_eq content hread)

/-- As long as the folders stay, a file that stays in its place can still be read. -/
theorem keepsFile_of_keepsFolders (hkeeps : d.KeepsFolders e) (hheld : e.held p = d.held p) :
    KeepsFile p d e where
  held_eq := hheld
  read_eq content hread := by
    have hfile := held_eq_some.mp (hheld.trans (held_of_read hread))
    obtain ⟨place, ⟨hplace, hslash, -⟩, -⟩ := accepts_of_read hread
    have hplace' := locate_of_keepsFolders hkeeps hplace
    rw [← eq_aim_of_locate hplace'] at hfile
    exact read_eq_ok ⟨hplace', hslash, by rw [hfile]; nofun⟩ hfile

end Disk

end Files

/-! ## The files of months -/

open Text Files

theorem Period.monthWord_mem (p : Period) : p.monthWord ∈ "Unknown" :: monthWords := by
  unfold monthWord
  split
  · exact List.mem_cons_self
  · rw [List.getD_eq_getElem?_getD]
    cases hword : monthWords[p.month.toNat - 1]? with
    | none => exact List.mem_cons_self
    | some word => exact List.mem_cons_of_mem _ (List.mem_of_getElem? hword)

/-- Months have different names. -/
theorem Period.month_eq_of_monthWord {p q : Period} (hp : p.HasMonth) (hq : q.HasMonth)
    (h : p.monthWord = q.monthWord) : p.month.toNat = q.month.toNat := by
  have hword {r : Period} (hr : r.HasMonth) :
      ∃ hlt : r.month.toNat - 1 < monthWords.length,
        r.monthWord = monthWords[r.month.toNat - 1] := by
    obtain ⟨hlow, hhigh⟩ := hr
    have hlt : r.month.toNat - 1 < monthWords.length := by
      change _ < 12
      omega
    have hne : r.month ≠ 0 := by
      intro hzero
      simp [hzero] at hlow
    exact ⟨hlt, by rw [monthWord, if_neg hne, List.getD_eq_getElem _ _ hlt]⟩
  obtain ⟨hplt, hpword⟩ := hword hp
  obtain ⟨hqlt, hqword⟩ := hword hq
  rw [hpword, hqword] at h
  have hindex := (List.Nodup.getElem_inj_iff (by decide)).mp h
  obtain ⟨hplow, -⟩ := hp
  obtain ⟨hqlow, -⟩ := hq
  omega

namespace Archive

variable {p q period : Period} {d : Disk} {folder : FilePath}

/-- The name of the table of a month without its extension. -/
def stem (period : Period) : String :=
  intNumeral period.year.toInt ++ "-" ++ period.monthWord ++ "-normalized-billing-data"

/-- The name of the temporary file of a month. -/
def draftName (period : Period) : String := stem period ++ ".csv.tmp"

theorem fileName_eq (period : Period) : fileName period = stem period ++ "." ++ "csv" := by
  have hending : "-normalized-billing-data.csv" = "-normalized-billing-data" ++ "." ++ "csv" := rfl
  simp only [fileName, stem, hending, String.append_assoc]

theorem slash_not_mem_fileName (period : Period) : '/' ∉ (fileName period).toList := by
  have hyear : '/' ∉ (intNumeral period.year.toInt).toList :=
    not_mem_intNumeral (by decide) (by decide) _
  have hword : '/' ∉ period.monthWord.toList := by
    have hall : ∀ word ∈ "Unknown" :: monthWords, '/' ∉ word.toList := by decide
    exact hall _ period.monthWord_mem
  simp [fileName, hyear, hword]

theorem four_lt_length_stem (period : Period) : 4 < (stem period).length := by
  simp only [stem, String.length_append]
  have hliteral : "-normalized-billing-data".length = 24 := rfl
  omega

/-- A name that goes on after the stem is no special one. -/
theorem stem_append_not_mem (period : Period) (more : String) :
    stem period ++ more ∉ ["", ".", ".."] := by
  have hlength := four_lt_length_stem period
  have hshort : ∀ name ∈ ["", ".", ".."], name.length ≤ 2 := by decide
  intro hmem
  have hlong := hshort _ hmem
  rw [String.length_append] at hlong
  omega

theorem fileName_not_mem (period : Period) : fileName period ∉ ["", ".", ".."] := by
  rw [fileName_eq, String.append_assoc]
  exact stem_append_not_mem period _

/-- Two months have the same file only if they are the same month of the same year. -/
theorem fileName_eq_iff (hp : p.HasMonth) (hq : q.HasMonth) :
    fileName p = fileName q ↔ p.sharesMonth q := by
  constructor
  · intro h
    have hdash {r : Period} : '-' ∉ r.monthWord.toList := by
      have hall : ∀ word ∈ "Unknown" :: monthWords, '-' ∉ word.toList := by decide
      exact hall _ r.monthWord_mem
    have hchars : (intNumeral p.year.toInt).toList ++ '-' :: p.monthWord.toList =
        (intNumeral q.year.toInt).toList ++ '-' :: q.monthWord.toList := by
      have hlists := congrArg String.toList h
      simp only [fileName, String.toList_append] at hlists
      simpa using List.append_cancel_right hlists
    obtain ⟨hyear, hword⟩ := cut_at_last hdash hdash hchars
    rw [Period.sharesMonth_iff]
    exact ⟨intNumeral_injective (String.toList_inj.mp hyear),
      Period.month_eq_of_monthWord hp hq (String.toList_inj.mp hword)⟩
  · intro h
    rw [Period.sharesMonth, Bool.and_eq_true, decide_eq_true_iff, decide_eq_true_iff] at h
    obtain ⟨hyear, hmonth⟩ := h
    rw [fileName, fileName, Period.monthWord, Period.monthWord, hyear, hmonth]

theorem draftName_ne_fileName (p q : Period) : draftName p ≠ fileName q := by
  intro h
  have hlast := congrArg (fun s ↦ s.toList.getLast?) h
  simp [draftName, fileName_eq] at hlast

/-- The place of a table is in the place of its folder. -/
theorem aim_path (d : Disk) (folder : FilePath) (period : Period) :
    d.aim (path folder period) = d.aim folder ++ [fileName period] := by
  have hplain := slash_not_mem_fileName period
  have hname := fileName_not_mem period
  have hne : fileName period ≠ "" := fun h ↦ hname (by simp [h])
  exact Disk.aim_append (FilePath.names_join hplain hne) (FilePath.isAbsolute_join hplain) hname

/-- The temporary file has the name of the table with another extension. -/
theorem renamed_path (folder : FilePath) (period : Period) :
    (path folder period).renamed "csv.tmp" = draftName period := by
  have hlength := four_lt_length_stem period
  have hlast : (path folder period).last = fileName period :=
    (FilePath.last_join (slash_not_mem_fileName period) (fileName_not_mem period)).1
  have hstem : (FilePath.splitName (path folder period).last).1 = stem period := by
    have hne : stem period ≠ "" := by
      intro hempty
      simp [hempty] at hlength
    rw [hlast, fileName_eq, FilePath.splitName_append hne (by decide)]
  rw [FilePath.renamed, hstem, if_neg, String.append_assoc]
  · rfl
  · rintro ⟨hdot, -⟩
    rw [hdot] at hlength
    exact absurd hlength (by decide)

/-- The temporary file lies beside the table. -/
theorem aim_draftPath (d : Disk) (folder : FilePath) (period : Period) :
    d.aim (draftPath (path folder period)) = d.aim folder ++ [draftName period] := by
  have hplain := slash_not_mem_fileName period
  have hname := fileName_not_mem period
  have hfile : (path folder period).fileName? = some (fileName period) :=
    FilePath.fileName?_join hplain hname
  have hfront : FilePath.spoken (path folder period).front = folder.names :=
    (FilePath.last_join hplain hname).2
  have hslash : '/' ∉ "csv.tmp".toList := by decide
  refine Disk.aim_append ?_ ?_ (stem_append_not_mem period _)
  · rw [draftPath, FilePath.names_withExtension hfile hslash, hfront, renamed_path, draftName]
  · rw [draftPath, FilePath.isAbsolute_withExtension hfile hslash]
    exact FilePath.isAbsolute_join hplain

/-- No draft lies where a table does. -/
theorem aim_draftPath_ne (d : Disk) (folder : FilePath) (p q : Period) :
    d.aim (draftPath (path folder p)) ≠ d.aim (path folder q) := by
  rw [aim_draftPath, aim_path]
  intro h
  exact draftName_ne_fileName p q (List.singleton_inj.mp (List.append_cancel_left h))

theorem aim_path_eq_iff (hp : p.HasMonth) (hq : q.HasMonth) :
    d.aim (path folder p) = d.aim (path folder q) ↔ p.sharesMonth q := by
  rw [aim_path, aim_path, ← fileName_eq_iff hp hq]
  constructor
  · intro h
    exact List.singleton_inj.mp (List.append_cancel_left h)
  · intro h
    rw [h]

end Archive

end CloudLedger
