import CloudLedger.Files.Path
import Mathlib.Data.List.DropRight
import Mathlib.Data.List.Infix
import Mathlib.Tactic.SplitIfs

/-!
# The pieces of a path

A path is its pieces with slashes between them.  The folder that it lies in is made of the pieces in
front of the last one that counts, and another extension changes only that last piece.  So a path,
its folder and a file beside it go the same way down for as long as they share names.
-/

namespace CloudLedger.Files

/-! ## Splitting and joining -/

theorem splitSlashes_eq_splitOn (cs : List Char) : splitSlashes cs = cs.splitOn '/' := by
  induction cs with
  | nil => rfl
  | cons c cs ih =>
    rw [splitSlashes, ih, List.splitOn, List.splitOn, List.splitOnP_cons_eq_if_modifyHead]
    by_cases hslash : c = '/'
    · simp [hslash]
    · obtain ⟨piece, rest, hpieces⟩ :=
        List.exists_cons_of_ne_nil (List.splitOnP_ne_nil (· == '/') cs)
      simp [hslash, hpieces]

theorem slash_not_mem_of_mem_splitSlashes {cs piece : List Char} (h : piece ∈ splitSlashes cs) :
    '/' ∉ piece := by
  induction cs generalizing piece with
  | nil =>
    rw [splitSlashes, List.mem_singleton] at h
    simp [h]
  | cons c cs ih =>
    rw [splitSlashes] at h
    split_ifs at h with hslash
    · rcases List.mem_cons.mp h with rfl | hmem
      · simp
      · exact ih hmem
    · cases hpieces : splitSlashes cs with
      | nil =>
        rw [hpieces] at h
        obtain rfl := List.mem_singleton.mp h
        simpa using Ne.symm hslash
      | cons first rest =>
        rw [hpieces] at h ih
        rcases List.mem_cons.mp h with rfl | hmem
        · have hfirst := ih List.mem_cons_self
          simpa [hfirst] using Ne.symm hslash
        · exact ih (List.mem_cons_of_mem first hmem)

/-- Pieces put in front are put in front of the whole text. -/
theorem intercalate_prefix {β : Type} (separator : List β) {front : List (List β)}
    (hfront : front ≠ []) (back : List (List β)) :
    separator.intercalate front <+: separator.intercalate (front ++ back) := by
  induction front with
  | nil => exact absurd rfl hfront
  | cons first rest ih =>
    cases rest with
    | nil =>
      rw [List.intercalate_singleton, List.singleton_append]
      cases back with
      | nil => simp
      | cons second back =>
        rw [List.intercalate_cons_cons, List.append_assoc]
        exact List.prefix_append ..
    | cons second rest =>
      rw [List.cons_append, List.cons_append, List.intercalate_cons_cons,
        List.intercalate_cons_cons]
      exact (List.prefix_append_right_inj _).mpr (ih (List.cons_ne_nil second rest))

/-- The last piece is at the end of the whole text. -/
theorem intercalate_concat_suffix {β : Type} (separator : List β) (front : List (List β))
    (piece : List β) : piece <:+ separator.intercalate (front ++ [piece]) := by
  induction front with
  | nil => simp
  | cons first rest ih =>
    cases rest with
    | nil =>
      rw [List.singleton_append, List.intercalate_cons_cons, List.intercalate_singleton]
      exact List.suffix_append ..
    | cons second rest =>
      rw [List.cons_append, List.cons_append, List.intercalate_cons_cons]
      exact ih.trans (List.suffix_append ..)

namespace FilePath

variable {p folder : FilePath} {name first : String} {rest names : List String}

theorem pieces_ne_nil (p : FilePath) : p.pieces ≠ [] := by
  rw [pieces, splitSlashes_eq_splitOn]
  simp

theorem slash_not_mem_of_mem_pieces (h : name ∈ p.pieces) : '/' ∉ name.toList := by
  obtain ⟨piece, hpiece, rfl⟩ := List.mem_map.mp h
  rw [String.toList_ofList]
  exact slash_not_mem_of_mem_splitSlashes hpiece

theorem joinSlashes_pieces (p : FilePath) : joinSlashes p.pieces = p.text := by
  have hpieces : p.pieces.map String.toList = p.text.toList.splitOn '/' := by
    rw [pieces, splitSlashes_eq_splitOn, List.map_map]
    simp [Function.comp_def]
  rw [joinSlashes, hpieces, List.intercalate_splitOn, String.ofList_toList]

theorem pieces_joinSlashes (hne : names ≠ []) (hplain : ∀ name ∈ names, '/' ∉ name.toList) :
    (⟨joinSlashes names⟩ : FilePath).pieces = names := by
  rw [pieces, splitSlashes_eq_splitOn, joinSlashes, String.toList_ofList, List.splitOn_intercalate]
  · simp [Function.comp_def]
  · simpa using hplain
  · simpa using hne

theorem not_endsInSlash_joinSlashes (hplain : '/' ∉ name.toList) (hne : name ≠ "") :
    ¬ (⟨joinSlashes (names ++ [name])⟩ : FilePath).endsInSlash := by
  have hname : name.toList ≠ [] := by simpa using hne
  rw [endsInSlash, decide_eq_true_iff, joinSlashes, String.toList_ofList, List.map_append,
    List.map_singleton]
  obtain ⟨front, htext⟩ :=
    intercalate_concat_suffix ['/'] (names.map String.toList) name.toList
  rw [← htext, List.getLast?_append_of_ne_nil front hname]
  exact fun hlast ↦ hplain (List.mem_of_getLast? hlast)

/-- A path starts at the root if its first piece is empty and is not the only one. -/
theorem isAbsolute_joinSlashes (hplain : '/' ∉ first.toList) :
    (⟨joinSlashes (first :: rest)⟩ : FilePath).isAbsolute ↔ first = "" ∧ rest ≠ [] := by
  rw [isAbsolute, joinSlashes, String.toList_ofList, decide_eq_true_iff]
  have hhead : first.toList.head? ≠ some '/' := fun h ↦ hplain (List.mem_of_head? h)
  cases rest with
  | nil => simpa using hhead
  | cons second rest =>
    rw [List.map_cons, List.map_cons, List.intercalate_cons_cons]
    cases hfirst : first.toList with
    | nil => simpa using hfirst
    | cons c cs =>
      rw [hfirst] at hhead
      have hne : first ≠ "" := by
        rintro rfl
        simp at hfirst
      simpa [hne] using hhead

/-! ## The last piece that counts -/

/-- Whether a piece says nothing. -/
def IsSilent (name : String) : Prop := name = "" ∨ name = "."

theorem dropSilent_append (names : List String) :
    ∃ silent, names = dropSilent names ++ silent ∧ ∀ name ∈ silent, IsSilent name := by
  refine ⟨names.rtakeWhile fun name ↦ name = "" || name = ".", ?_, fun name hname ↦ ?_⟩
  · exact List.rdropWhile_append_rtakeWhile.symm
  · simpa [IsSilent] using List.mem_rtakeWhile_imp hname

theorem not_isSilent_of_dropSilent (h : dropSilent names = rest ++ [name]) : ¬ IsSilent name := by
  have hne : dropSilent names ≠ [] := by simp [h]
  have hlast := List.rdropWhile_last_not (fun name ↦ name = "" || name = ".") names hne
  have hname : (dropSilent names).getLast hne = name := by simp [h]
  change ¬ ((dropSilent names).getLast hne = "" || (dropSilent names).getLast hne = ".") at hlast
  rw [hname] at hlast
  simpa [IsSilent] using hlast

/-- The pieces in front of the last one that counts. -/
def front (p : FilePath) : List String := p.pieces.take p.spine.2.length

/-- The last piece that counts. -/
def last (p : FilePath) : String := p.spine.2.getLast?.getD p.spine.1

theorem spine_cases (p : FilePath) :
    (p.spine = (p.last, []) ∧ p.front = []) ∨
      ∃ first init, p.spine = (first, init ++ [p.last]) ∧ p.front = first :: init ∧
        ¬ IsSilent p.last := by
  obtain ⟨first, more, hpieces⟩ := List.exists_cons_of_ne_nil p.pieces_ne_nil
  obtain ⟨silent, hmore, -⟩ := dropSilent_append more
  have hspine : p.spine = (first, dropSilent more) := by simp [spine, hpieces]
  rw [front, last, hspine, hpieces]
  rcases List.eq_nil_or_concat' (dropSilent more) with hnil | ⟨init, name, hconcat⟩
  · simp [hnil]
  · rw [hconcat] at hmore ⊢
    rw [hmore]
    exact .inr ⟨first, init, by simp, by simp, by simpa using not_isSilent_of_dropSilent hconcat⟩

theorem pieces_eq (p : FilePath) : ∃ silent, p.pieces = p.front ++ p.last :: silent ∧
    ∀ name ∈ silent, IsSilent name := by
  obtain ⟨first, more, hpieces⟩ := List.exists_cons_of_ne_nil p.pieces_ne_nil
  obtain ⟨silent, hmore, hsilent⟩ := dropSilent_append more
  have hspine : p.spine = (first, dropSilent more) := by simp [spine, hpieces]
  refine ⟨silent, ?_, hsilent⟩
  rw [hpieces, hmore]
  rcases p.spine_cases with ⟨hlast, hfront⟩ | ⟨first', init, hlast, hfront, -⟩
  · obtain ⟨rfl, hnil⟩ := Prod.mk.inj (hspine.symm.trans hlast)
    rw [hfront, hnil]
    rfl
  · obtain ⟨rfl, hconcat⟩ := Prod.mk.inj (hspine.symm.trans hlast)
    rw [hfront, hconcat]
    simp

theorem slash_not_mem_front (h : name ∈ p.front) : '/' ∉ name.toList :=
  slash_not_mem_of_mem_pieces (List.mem_of_mem_take h)

theorem slash_not_mem_last (p : FilePath) : '/' ∉ p.last.toList := by
  obtain ⟨silent, hpieces, -⟩ := p.pieces_eq
  exact slash_not_mem_of_mem_pieces (hpieces ▸ List.mem_append_right _ List.mem_cons_self)

/-! ## The way down -/

/-- Leave out the empty pieces. -/
def spoken (names : List String) : List String := names.filter fun name ↦ name ≠ ""

theorem names_eq (p : FilePath) : p.names = spoken p.pieces := rfl

theorem spoken_append (names rest : List String) :
    spoken (names ++ rest) = spoken names ++ spoken rest := List.filter_append ..

theorem spoken_cons (h : name ≠ "") (rest : List String) :
    spoken (name :: rest) = name :: spoken rest := List.filter_cons_of_pos (by simpa using h)

theorem spoken_silent (h : ∀ name ∈ names, IsSilent name) : ∀ name ∈ spoken names, name = "." := by
  intro name hname
  obtain ⟨hmem, hne⟩ := List.mem_filter.mp hname
  exact (h name hmem).resolve_left (by simpa using hne)

/-- A path goes through the pieces in front to the last one that counts; dots may follow. -/
theorem names_eq_front_last (h : p.last ≠ "") :
    ∃ dots, p.names = spoken p.front ++ p.last :: dots ∧ ∀ dot ∈ dots, dot = "." := by
  obtain ⟨silent, hpieces, hsilent⟩ := p.pieces_eq
  refine ⟨spoken silent, ?_, spoken_silent hsilent⟩
  rw [names_eq, hpieces, spoken_append, spoken_cons h]

/-- Whether a path starts at the root is seen from the pieces in front of one that is not empty. -/
theorem isAbsolute_joinSlashes_append (hfront : ∀ name ∈ names, '/' ∉ name.toList)
    (hname : '/' ∉ name.toList) (hne : name ≠ "") :
    (⟨joinSlashes (names ++ name :: rest)⟩ : FilePath).isAbsolute ↔ names.head? = some "" := by
  cases names with
  | nil =>
    rw [List.nil_append, isAbsolute_joinSlashes hname]
    simp [hne]
  | cons first names =>
    rw [List.cons_append, isAbsolute_joinSlashes (hfront first List.mem_cons_self)]
    simp

theorem isAbsolute_iff (h : p.last ≠ "") : p.isAbsolute ↔ p.front.head? = some "" := by
  obtain ⟨silent, hpieces, -⟩ := p.pieces_eq
  have htext : p = ⟨joinSlashes (p.front ++ p.last :: silent)⟩ := by
    rw [← hpieces, joinSlashes_pieces]
  conv_lhs => rw [htext]
  exact isAbsolute_joinSlashes_append (fun _ ↦ slash_not_mem_front) p.slash_not_mem_last h

/-! ### The folder that a path lies in -/

section Folders

variable (hplain : ∀ name ∈ first :: rest, '/' ∉ name.toList)
include hplain

theorem names_ofSpine : (ofSpine first rest).names = spoken (first :: rest) := by
  by_cases hroot : rest = [] ∧ first = ""
  · rw [ofSpine, if_pos hroot, hroot.1, hroot.2]
    rfl
  · rw [ofSpine, if_neg hroot, names_eq, pieces_joinSlashes (List.cons_ne_nil first rest) hplain]

theorem isAbsolute_ofSpine : (ofSpine first rest).isAbsolute ↔ first = "" := by
  by_cases hroot : rest = [] ∧ first = ""
  · rw [ofSpine, if_pos hroot]
    exact iff_of_true rfl hroot.2
  · rw [ofSpine, if_neg hroot, isAbsolute_joinSlashes (hplain first List.mem_cons_self)]
    exact and_iff_left_of_imp fun hempty hnil ↦ hroot ⟨hnil, hempty⟩

omit hplain in
theorem text_ofSpine_prefix {more : List String} (hmore : more ≠ []) :
    (ofSpine first rest).text.toList <+: (joinSlashes (first :: rest ++ more)).toList := by
  by_cases hroot : rest = [] ∧ first = ""
  · obtain ⟨second, more, rfl⟩ := List.exists_cons_of_ne_nil hmore
    rw [ofSpine, if_pos hroot, hroot.1, hroot.2, joinSlashes, String.toList_ofList]
    simp [List.intercalate_cons_cons]
  · rw [ofSpine, if_neg hroot, joinSlashes, joinSlashes, String.toList_ofList,
      String.toList_ofList, List.map_append]
    exact intercalate_prefix _ (by simp) _

end Folders

theorem parent?_cases (h : p.parent? = some folder) :
    (folder = ⟨""⟩ ∧ p.front = [] ∧ p.last ≠ "") ∨
      ∃ first init, folder = ofSpine first (dropSilent init) ∧ p.front = first :: init ∧
        ¬ IsSilent p.last := by
  rcases p.spine_cases with ⟨hspine, hfront⟩ | ⟨first, init, hspine, hfront, hlast⟩
  · rw [parent?, hspine] at h
    dsimp only at h
    split_ifs at h with hempty
    cases h
    exact .inl ⟨rfl, hfront, hempty⟩
  · refine .inr ⟨first, init, ?_, hfront, hlast⟩
    rw [parent?, hspine] at h
    cases hrest : init ++ [p.last] with
    | nil => simp at hrest
    | cons second rest =>
      rw [hrest] at h
      dsimp only at h
      rw [← hrest, List.dropLast_concat] at h
      exact (Option.some.inj h).symm

/-- How a path goes on from the folder that it lies in: the same way, and one name further. -/
structure Continues (folder p : FilePath) : Prop where
  last_ne_empty : p.last ≠ ""
  last_ne_dot : folder.text = "" ∨ p.last ≠ "."
  front_eq : ∃ dots, spoken p.front = folder.names ++ dots ∧ ∀ dot ∈ dots, dot = "."
  isAbsolute_eq : folder.isAbsolute = p.isAbsolute
  text_prefix : folder.text.toList <+: p.text.toList

theorem continues_of_parent? (h : p.parent? = some folder) : folder.Continues p := by
  obtain ⟨tail, hpieces, -⟩ := p.pieces_eq
  rcases parent?_cases h with ⟨rfl, hfront, hlast⟩ | ⟨first, init, rfl, hfront, hlast⟩
  · refine ⟨hlast, .inl rfl, ⟨[], by simp [hfront, spoken, names, pieces, splitSlashes], by simp⟩,
      ?_, ?_⟩
    · rw [Bool.eq_iff_iff, isAbsolute_iff hlast, hfront]
      simp [isAbsolute]
    · simp
  · obtain ⟨hempty, hdot⟩ := not_or.mp hlast
    obtain ⟨silent, hinit, hsilent⟩ := dropSilent_append init
    have hparts : p.front = first :: dropSilent init ++ silent := by
      rw [hfront, List.cons_append, ← hinit]
    have hplain : ∀ name ∈ first :: dropSilent init, '/' ∉ name.toList := fun name hname ↦
      slash_not_mem_front (hparts ▸ List.mem_append_left silent hname)
    refine ⟨hempty, .inr hdot, ⟨spoken silent, ?_, spoken_silent hsilent⟩, ?_, ?_⟩
    · rw [names_ofSpine hplain, hparts, spoken_append]
    · rw [Bool.eq_iff_iff, isAbsolute_ofSpine hplain, isAbsolute_iff hempty, hfront]
      simp
    · rw [← joinSlashes_pieces p, hpieces, hparts, List.append_assoc]
      exact text_ofSpine_prefix (by simp)

/-- A path goes through the names of its folder to the last piece that counts, with dots between
and after them. -/
theorem Continues.names_eq (h : folder.Continues p) : ∃ dots more,
    p.names = folder.names ++ dots ++ p.last :: more ∧ (∀ dot ∈ dots, dot = ".") ∧
      ∀ dot ∈ more, dot = "." := by
  obtain ⟨dots, hfront, hdots⟩ := h.front_eq
  obtain ⟨more, hnames, hmore⟩ := names_eq_front_last h.last_ne_empty
  exact ⟨dots, more, hfront ▸ hnames, hdots, hmore⟩

/-! ### Another extension -/

/-- What stands before the last dot and what stands after it. -/
theorem take_append_dot {cs after : List Char} (hafter : cs.rtakeWhile (fun c ↦ c ≠ '.') = after)
    (h : cs.take (cs.length - after.length - 1) ≠ []) :
    cs.take (cs.length - after.length - 1) ++ '.' :: after = cs := by
  have hwhole : cs.rdropWhile (fun c ↦ c ≠ '.') ++ after = cs :=
    hafter ▸ List.rdropWhile_append_rtakeWhile
  rcases List.eq_nil_or_concat' (cs.rdropWhile fun c ↦ c ≠ '.') with hnil | ⟨before, c, hconcat⟩
  · rw [hnil, List.nil_append] at hwhole
    exact absurd (by simp [hwhole]) h
  · have hdot : c = '.' := by
      have hlast := List.rdropWhile_last_not (fun c ↦ decide (c ≠ '.')) cs
        (hconcat ▸ List.concat_ne_nil c before)
      simp only [hconcat, List.getLast_append_singleton] at hlast
      simpa using hlast
    have hcs : before ++ '.' :: after = cs := by
      rw [← hwhole, hconcat, hdot, List.append_assoc, List.singleton_append]
    have hlength : cs.length - after.length - 1 = before.length := by
      rw [← hcs, List.length_append, List.length_cons]
      omega
    rw [hlength]
    nth_rewrite 1 [← hcs]
    rw [List.take_left, hcs]

theorem splitName_eq {after : List Char}
    (hafter : name.toList.rtakeWhile (fun c ↦ c ≠ '.') = after) :
    splitName name = if name.toList.take (name.toList.length - after.length - 1) = []
      then (name, none)
      else (String.ofList (name.toList.take (name.toList.length - after.length - 1)),
        some (String.ofList after)) := by
  subst hafter
  rfl

/-- A file name is its stem, followed by a dot and its extension if it has one. -/
theorem splitName_cases (name : String) :
    splitName name = (name, none) ∨ ∃ stem extension : String,
      splitName name = (stem, some extension) ∧ name = stem ++ "." ++ extension ∧
        stem ≠ "" ∧ '.' ∉ extension.toList := by
  obtain ⟨after, hafter⟩ : ∃ after, name.toList.rtakeWhile (fun c ↦ c ≠ '.') = after := ⟨_, rfl⟩
  rw [splitName_eq hafter]
  split_ifs with hbefore
  · exact .inl rfl
  · refine .inr ⟨_, _, rfl, ?_, by simpa using hbefore, fun hmem ↦ ?_⟩
    · rw [← String.toList_inj, String.toList_append, String.toList_append, String.toList_ofList,
        String.toList_ofList]
      simpa using (take_append_dot hafter hbefore).symm
    · rw [String.toList_ofList, ← hafter] at hmem
      simpa using List.mem_rtakeWhile_imp hmem

theorem slash_not_mem_stem (h : '/' ∉ name.toList) : '/' ∉ (splitName name).1.toList := by
  rcases splitName_cases name with heq | ⟨stem, extension, heq, hname, -⟩
  · rwa [heq]
  · rw [heq]
    intro hmem
    rw [hname] at h
    simp [hmem] at h

/-- An extension of more than one word gives another name. -/
theorem stem_append_ne {extension : String} (hdot : '.' ∈ extension.toList) :
    (splitName name).1 ++ "." ++ extension ≠ name := by
  intro hname
  rcases splitName_cases name with heq | ⟨stem, old, heq, hwhole, -, hold⟩
  · have hlength := congrArg (fun s ↦ s.toList.length) hname
    simp [heq] at hlength
  · rw [heq] at hname
    have hchars :
        (stem ++ ".").toList ++ extension.toList = (stem ++ ".").toList ++ old.toList := by
      rw [← String.toList_append, ← String.toList_append, hname, ← hwhole]
    exact hold (List.append_cancel_left hchars ▸ hdot)

theorem fileName?_eq (p : FilePath) :
    p.fileName? = if p.last ∈ ["", ".", ".."] then none else some p.last := rfl

theorem last_of_fileName? (h : p.fileName? = some name) : p.last = name ∧
    name ≠ "" ∧ name ≠ "." ∧ name ≠ ".." := by
  rw [fileName?_eq] at h
  split_ifs at h with hspecial
  obtain rfl := Option.some.inj h
  simpa using hspecial

/-- What the last name of a path becomes when it is given another extension. -/
def renamed (p : FilePath) (extension : String) : String :=
  let stem := (splitName p.last).1
  if stem = "." ∧ p.pieces.getLast? = some p.last then ".." else stem ++ "." ++ extension

theorem withExtension_eq (h : p.fileName? = some name) (extension : String) :
    p.withExtension extension = ⟨joinSlashes (p.front ++ [p.renamed extension])⟩ := by
  obtain ⟨rfl, -⟩ := last_of_fileName? h
  rw [withExtension, h]
  rfl

theorem renamed_cases (p : FilePath) (extension : String) : p.renamed extension = ".." ∨
    p.renamed extension = (splitName p.last).1 ++ "." ++ extension := by
  rw [renamed]
  split_ifs
  · exact .inl rfl
  · exact .inr rfl

theorem renamed_ne_empty (p : FilePath) (extension : String) : p.renamed extension ≠ "" := by
  rcases p.renamed_cases extension with heq | heq <;>
    rw [heq, ne_eq, ← String.toList_inj] <;> simp

theorem renamed_ne_dot (p : FilePath) {extension : String} (hne : extension ≠ "") :
    p.renamed extension ≠ "." := by
  rcases p.renamed_cases extension with heq | heq
  · rw [heq]
    decide
  · rw [heq]
    intro hdot
    have hlength := congrArg String.length hdot
    have hpos : extension.length ≠ 0 := by simpa using hne
    simp only [String.length_append] at hlength
    omega

section Renaming

variable {extension : String} (h : p.fileName? = some name)
include h

/-- An extension of more than one word gives the file another name. -/
theorem renamed_ne_last (hdot : '.' ∈ extension.toList) : p.renamed extension ≠ p.last := by
  obtain ⟨rfl, -, -, hup⟩ := last_of_fileName? h
  rcases p.renamed_cases extension with heq | heq
  · rw [heq]
    exact hup.symm
  · rw [heq]
    exact stem_append_ne hdot

variable (hslash : '/' ∉ extension.toList)
include hslash

omit h in
theorem slash_not_mem_renamed : '/' ∉ (p.renamed extension).toList := by
  rcases p.renamed_cases extension with heq | heq
  · rw [heq]
    decide
  · rw [heq]
    simpa [hslash] using slash_not_mem_stem p.slash_not_mem_last

/-- A path with another extension goes the same way to the other name. -/
theorem names_withExtension :
    (p.withExtension extension).names = spoken p.front ++ [p.renamed extension] := by
  have hplain : ∀ name ∈ p.front ++ [p.renamed extension], '/' ∉ name.toList := by
    intro name hname
    rcases List.mem_append.mp hname with hmem | hmem
    · exact slash_not_mem_front hmem
    · exact List.mem_singleton.mp hmem ▸ slash_not_mem_renamed hslash
  rw [withExtension_eq h, names_eq, pieces_joinSlashes (by simp) hplain, spoken_append,
    spoken_cons (p.renamed_ne_empty extension)]
  rfl

theorem isAbsolute_withExtension : (p.withExtension extension).isAbsolute = p.isAbsolute := by
  obtain ⟨rfl, hempty, -⟩ := last_of_fileName? h
  rw [Bool.eq_iff_iff, isAbsolute_iff hempty, withExtension_eq h]
  exact isAbsolute_joinSlashes_append (fun _ ↦ slash_not_mem_front)
    (slash_not_mem_renamed hslash) (p.renamed_ne_empty extension)

theorem not_endsInSlash_withExtension : ¬ (p.withExtension extension).endsInSlash := by
  rw [withExtension_eq h]
  exact not_endsInSlash_joinSlashes (slash_not_mem_renamed hslash) (p.renamed_ne_empty extension)

end Renaming

end FilePath

end CloudLedger.Files
