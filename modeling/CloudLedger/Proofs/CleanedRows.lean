import CloudLedger.Proofs.Cleaning
import Mathlib.Data.List.Basic

/-!
# Rows one by one and rows at once

A table is cleaned in two ways that are written apart from each other.  Taking rows one by one passes
over those that are too long, while cleaning them at once cuts these; of all other rows both give the
same ones in the same order.  When nothing is left, the phase that is named tells why.

Cutting comes last and may leave a row with nothing written in it.  What is cleaned again loses
exactly such rows, so that cleaned rows are left as they are if each of them still has a text.
-/

namespace CloudLedger.Table

open Text

variable {w : Width} {row : Row} {rest rows : List Row} {failure : Option Fault}

namespace Width

/-- Each row that cleaning keeps, beside what it makes of it. -/
def cuts (w : Width) (rows : List Row) : List (Row × Row) :=
  rows.filterMap fun row ↦ (w.cleaned? row).map fun cut ↦ (row, cut)

theorem mem_cuts {cut : Row × Row} :
    cut ∈ w.cuts rows ↔ cut.1 ∈ rows ∧ ¬ w.Drops cut.1 ∧ cut.1.take w.most = cut.2 := by
  simp only [cuts, List.mem_filterMap, Option.map_eq_some_iff, cleaned?_eq_some]
  constructor
  · rintro ⟨row, hrow, result, hcut, rfl⟩
    exact ⟨hrow, hcut⟩
  · rintro ⟨hrow, hcut⟩
    exact ⟨cut.1, hrow, cut.2, hcut, rfl⟩

theorem map_snd_cuts (w : Width) (rows : List Row) :
    (w.cuts rows).map Prod.snd = rows.filterMap w.cleaned? := by
  rw [cuts, List.map_filterMap]
  apply List.filterMap_congr
  intro row _
  rw [Option.map_map]
  exact Option.map_id'

theorem admits_iff : w.admits row ↔ ¬ w.Drops row ∧ row.length ≤ w.most := by
  rw [not_drops_iff, admits, fits, Bool.and_eq_true, Bool.and_eq_true, decide_eq_true_iff,
    decide_eq_true_iff, and_assoc]

theorem cuts_cons_of_drops (h : w.Drops row) : w.cuts (row :: rest) = w.cuts rest := by
  rw [cuts, List.filterMap_cons_none]
  · rfl
  · rw [cleaned?_eq_none.mpr h, Option.map_none]

theorem cuts_cons_of_not_drops (h : ¬ w.Drops row) :
    w.cuts (row :: rest) = (row, row.take w.most) :: w.cuts rest := by
  rw [cuts, List.filterMap_cons_some]
  · rfl
  · rw [cleaned?_eq_some.mpr ⟨h, rfl⟩, Option.map_some]

/-- Of the rows that cleaning keeps, those that it does not have to cut can be handed out. -/
theorem map_snd_filter_cuts (w : Width) (rows : List Row) :
    ((w.cuts rows).filter fun cut ↦ cut.1.length ≤ w.most).map Prod.snd =
      rows.filter fun row ↦ w.admits row := by
  induction rows with
  | nil => rfl
  | cons row rest ih =>
    by_cases hdrops : w.Drops row
    · have hadmits : ¬ w.admits row := fun h ↦ (admits_iff.mp h).1 hdrops
      rw [cuts_cons_of_drops hdrops, List.filter_cons_of_neg hadmits, ih]
    · rw [cuts_cons_of_not_drops hdrops]
      by_cases hlong : row.length ≤ w.most
      · rw [List.filter_cons_of_pos (by simpa using hlong), List.map_cons,
          List.filter_cons_of_pos (admits_iff.mpr ⟨hdrops, hlong⟩), ih, List.take_of_length_le hlong]
      · have hadmits : ¬ w.admits row := fun h ↦ hlong (admits_iff.mp h).2
        rw [List.filter_cons_of_neg (by simpa using hlong), List.filter_cons_of_neg hadmits, ih]

end Width

namespace RowStream

/-! ## Taking rows one by one -/

theorem next_nil : next w ⟨[], failure⟩ = match failure with
    | some fault => .error fault
    | none => .ok none := rfl

theorem next_cons_of_admits (h : w.admits row) :
    next w ⟨row :: rest, failure⟩ = .ok (some (row, ⟨rest, failure⟩)) := by
  simp [next, h]

theorem next_cons_of_not_admits (h : ¬ w.admits row) :
    next w ⟨row :: rest, failure⟩ = next w ⟨rest, failure⟩ := by
  simp [next, h]

theorem takeAll_eq (s : RowStream) : s.takeAll w = match s.next w with
    | .error fault => ([], some fault)
    | .ok none => ([], none)
    | .ok (some (row, rest)) => (row :: (rest.takeAll w).1, (rest.takeAll w).2) := by
  rw [takeAll]
  split <;> simp [*]

/-- Rows that can be handed out are, one after the other, and then the source ends as it does. -/
theorem takeAll_filter (w : Width) (rows : List Row) (failure : Option Fault) :
    takeAll w ⟨rows, failure⟩ = (rows.filter fun row ↦ w.admits row, failure) := by
  induction rows with
  | nil =>
    rw [takeAll_eq, next_nil]
    cases failure <;> rfl
  | cons row rest ih =>
    by_cases hadmits : w.admits row
    · rw [takeAll_eq, next_cons_of_admits hadmits, List.filter_cons_of_pos hadmits]
      simp only [ih]
    · rw [takeAll_eq, next_cons_of_not_admits hadmits, ← takeAll_eq, ih,
        List.filter_cons_of_neg hadmits]

/-! ## Cleaning rows at once -/

theorem clean_of_rows (w : Width) (rows : List Row) : clean w { rows } =
    if rows = [] then .error (.exhausted .reading)
    else if rows.filter hasText = [] then .error (.exhausted .droppingBlank)
    else if rows.filterMap w.cleaned? = [] then .error (.exhausted .droppingShort)
    else .ok (rows.filterMap w.cleaned?) := by
  rw [Width.filterMap_cleaned?]
  rfl

theorem clean_eq_reading : clean w { rows } = .error (.exhausted .reading) ↔ rows = [] := by
  rw [clean_of_rows]
  split_ifs <;> simp [*]

theorem clean_eq_droppingBlank : clean w { rows } = .error (.exhausted .droppingBlank) ↔
    rows ≠ [] ∧ ∀ row ∈ rows, ¬ hasText row := by
  rw [clean_of_rows, ← List.filter_eq_nil_iff]
  split_ifs <;> simp [*]

theorem clean_eq_droppingShort : clean w { rows } = .error (.exhausted .droppingShort) ↔
    (∃ row ∈ rows, hasText row) ∧ ∀ row ∈ rows, hasText row → row.length < w.least := by
  have htext : (∃ row ∈ rows, hasText row) ↔ rows.filter hasText ≠ [] := by
    simp [List.filter_eq_nil_iff]
  have hshort : (∀ row ∈ rows, hasText row → row.length < w.least) ↔
      rows.filterMap w.cleaned? = [] := by
    rw [List.filterMap_eq_nil_iff]
    apply forall₂_congr
    intro row _
    rw [Width.cleaned?_eq_none, ← not_iff_not, Width.not_drops_iff, Classical.not_imp, Nat.not_lt]
  rw [htext, hshort, clean_of_rows]
  split_ifs <;> simp_all

theorem exhausted_of_clean_ne_ok (h : ∀ kept, clean w { rows } ≠ .ok kept) :
    ∃ phase, clean w { rows } = .error (.exhausted phase) := by
  rw [clean_of_rows] at h ⊢
  split_ifs at h ⊢
  · exact ⟨_, rfl⟩
  · exact ⟨_, rfl⟩
  · exact ⟨_, rfl⟩
  · exact absurd rfl (h _)

theorem clean_eq_ok_cuts {kept : List Row} :
    clean w { rows } = .ok kept ↔ kept = (w.cuts rows).map Prod.snd ∧ kept ≠ [] := by
  rw [clean_eq_ok, Width.map_snd_cuts]
  exact and_iff_right rfl

/-- If no row is too long, cleaning gives the rows that can be handed out. -/
theorem clean_eq_ok_of_short (hshort : ∀ row ∈ rows, row.length ≤ w.most) {kept : List Row} :
    clean w { rows } = .ok kept ↔ kept = (takeAll w { rows }).1 ∧ kept ≠ [] := by
  have hall : ∀ cut ∈ w.cuts rows, decide (cut.1.length ≤ w.most) := fun cut hcut ↦
    decide_eq_true (hshort cut.1 (Width.mem_cuts.mp hcut).1)
  rw [takeAll_filter, ← Width.map_snd_filter_cuts, List.filter_eq_self.mpr hall, clean_eq_ok_cuts]

/-! ## The two ways compared -/

/-- Rows taken one by one are the rows of a cleaned table that did not have to be cut, so that both
ways agree if no row is too long.  The phase of a failure tells whether there were no rows, only
blank ones, or no blank ones but short ones.  A source that fails gives the same rows one by one, and
none at once. -/
theorem taken_and_cleaned (w : Width) (rows : List Row) : ∃ taken : List Row,
    takeAll w { rows } = (taken, none) ∧
    taken = ((w.cuts rows).filter fun cut ↦ cut.1.length ≤ w.most).map Prod.snd ∧
    (∀ kept, clean w { rows } = .ok kept ↔ kept = (w.cuts rows).map Prod.snd ∧ kept ≠ []) ∧
    ((∀ kept, clean w { rows } ≠ .ok kept) →
      ∃ phase, clean w { rows } = .error (.exhausted phase)) ∧
    ((∀ row ∈ rows, row.length ≤ w.most) →
      (taken ≠ [] → clean w { rows } = .ok taken) ∧
      (taken = [] → ∃ phase, clean w { rows } = .error (.exhausted phase))) ∧
    (clean w { rows } = .error (.exhausted .reading) ↔ rows = []) ∧
    (clean w { rows } = .error (.exhausted .droppingBlank) ↔
      rows ≠ [] ∧ ∀ row ∈ rows, ¬ hasText row) ∧
    (clean w { rows } = .error (.exhausted .droppingShort) ↔
      (∃ row ∈ rows, hasText row) ∧ ∀ row ∈ rows, hasText row → row.length < w.least) ∧
    ∀ fault, clean w { rows, failure := some fault } = .error fault ∧
      takeAll w { rows, failure := some fault } = (taken, some fault) := by
  refine ⟨_, takeAll_filter w rows none, (Width.map_snd_filter_cuts w rows).symm,
    fun kept ↦ clean_eq_ok_cuts, exhausted_of_clean_ne_ok, fun hshort ↦ ⟨fun htaken ↦ ?_,
    fun hnone ↦ ?_⟩, clean_eq_reading, clean_eq_droppingBlank, clean_eq_droppingShort,
    fun fault ↦ ⟨rfl, takeAll_filter w rows (some fault)⟩⟩
  · rw [clean_eq_ok_of_short hshort, takeAll_filter]
    exact ⟨rfl, htaken⟩
  · apply exhausted_of_clean_ne_ok
    intro kept hkept
    obtain ⟨rfl, hne⟩ := (clean_eq_ok_of_short hshort).mp hkept
    rw [takeAll_filter] at hne
    exact hne hnone

/-! ### A table with a banner and sums -/

section Banner

def twoOrThree : Width := ⟨2, 3, by decide, by decide⟩

/-- A banner, a blank row and a line. -/
def bannerRows : List Row := [["Usage"], [" ", "\t"], ["x", "y"]]

/-- The line is all that is left of the table either way. -/
theorem taken_and_cleaned_banner : (∀ row ∈ bannerRows, row.length ≤ twoOrThree.most) ∧
    takeAll twoOrThree { rows := bannerRows } = ([["x", "y"]], none) ∧
    clean twoOrThree { rows := bannerRows } = .ok [["x", "y"]] := by
  have hshort : ∀ row ∈ bannerRows, row.length ≤ twoOrThree.most := by decide
  obtain ⟨taken, htake, htaken, -, -, hagree, -⟩ := taken_and_cleaned twoOrThree bannerRows
  have hline : taken = [["x", "y"]] := by
    rw [htaken]
    decide +kernel
  subst hline
  exact ⟨hshort, htake, (hagree hshort).1 (List.cons_ne_nil _ _)⟩

end Banner

/-! ## Cleaning again -/

variable {cut : Row × Row} {s : RowStream} {kept : List Row}

theorem fits_of_cut (hcut : cut ∈ w.cuts rows) : w.fits cut.2.length := by
  obtain ⟨-, hkeeps, hrow⟩ := Width.mem_cuts.mp hcut
  have hlength : cut.2.length = min w.most cut.1.length := by rw [← hrow, List.length_take]
  have hleast := (Width.not_drops_iff.mp hkeeps).2
  have hle := w.least_le
  rw [Width.fits, Bool.and_eq_true, decide_eq_true_iff, decide_eq_true_iff]
  omega

theorem admits_iff_of_cut (hcut : cut ∈ w.cuts rows) : w.admits cut.2 ↔ hasText cut.2 := by
  rw [Width.admits, fits_of_cut hcut, Bool.and_true]

/-- Of what cleaning made of a row, only its text can be missing when it is cleaned again. -/
theorem cleaned?_of_cut (hcut : cut ∈ w.cuts rows) :
    w.cleaned? cut.2 = if hasText cut.2 then some cut.2 else none := by
  by_cases htext : hasText cut.2
  · obtain ⟨hkeeps, hlength⟩ := Width.admits_iff.mp ((admits_iff_of_cut hcut).mpr htext)
    rw [if_pos htext, Width.cleaned?_eq_some]
    exact ⟨hkeeps, List.take_of_length_le hlength⟩
  · rw [if_neg htext, Width.cleaned?_eq_none]
    by_contra hkeeps
    exact htext (Width.not_drops_iff.mp hkeeps).1

theorem filterMap_cleaned?_of_cuts :
    ((w.cuts rows).map Prod.snd).filterMap w.cleaned? =
      ((w.cuts rows).map Prod.snd).filter hasText := by
  calc ((w.cuts rows).map Prod.snd).filterMap w.cleaned?
      = ((w.cuts rows).map Prod.snd).filterMap fun row ↦
          if hasText row then some (id row) else none := by
        apply List.filterMap_congr
        intro row hrow
        obtain ⟨cut, hcut, rfl⟩ := List.mem_map.mp hrow
        exact cleaned?_of_cut hcut
    _ = ((w.cuts rows).map Prod.snd).filter hasText := by
        rw [filterMap_ite, List.map_id]

theorem eq_cuts_of_clean (h : s.clean w = .ok kept) :
    kept = (w.cuts s.rows).map Prod.snd ∧ kept ≠ [] := by
  obtain ⟨-, hkept, hne⟩ := clean_eq_ok.mp h
  exact ⟨hkept.trans (Width.map_snd_cuts w s.rows).symm, hne⟩

/-- Cleaned rows that are cleaned again lose those with nothing written in them. -/
theorem clean_of_clean (h : s.clean w = .ok kept) : clean w { rows := kept } =
    if kept.filter hasText = [] then .error (.exhausted .droppingBlank)
    else .ok (kept.filter hasText) := by
  obtain ⟨hkept, hne⟩ := eq_cuts_of_clean h
  have hagain : kept.filterMap w.cleaned? = kept.filter hasText := by
    rw [hkept]
    exact filterMap_cleaned?_of_cuts
  rw [clean_of_rows, if_neg hne, hagain]
  split_ifs <;> rfl

theorem clean_of_clean_eq_self (h : s.clean w = .ok kept) :
    clean w { rows := kept } = .ok kept ↔ ∀ row ∈ kept, hasText row := by
  have hne := (eq_cuts_of_clean h).2
  rw [clean_of_clean h, ← List.filter_eq_self]
  constructor
  · intro hsame
    split_ifs at hsame
    exact Except.ok.inj hsame
  · intro hall
    rw [hall, if_neg hne]

/-- Every cleaned row has as many cells as it may have, and it can be handed out as it is exactly if
something is written in the cells that were not cut off.  Cleaning again keeps such rows and drops
the others; so it changes nothing exactly if all can be handed out, as they can if no row was cut. -/
theorem cleaned_again (w : Width) (s : RowStream) (kept : List Row) (h : s.clean w = .ok kept) :
    kept = (w.cuts s.rows).map Prod.snd ∧
      (∀ cut ∈ w.cuts s.rows, w.fits cut.2.length ∧
        (w.admits cut.2 ↔ ∃ cell ∈ cut.1.take w.most, ¬ isBlankText cell)) ∧
      (clean w { rows := kept } =
        if kept.filter hasText = [] then .error (.exhausted .droppingBlank)
        else .ok (kept.filter hasText)) ∧
      (clean w { rows := kept } = .ok kept ↔ ∀ row ∈ kept, w.admits row) ∧
      ((∀ row ∈ s.rows, row.length ≤ w.most) → ∀ row ∈ kept, w.admits row) := by
  obtain ⟨hkept, -⟩ := eq_cuts_of_clean h
  have hadmits : ∀ row ∈ kept, (w.admits row ↔ hasText row) := by
    intro row hrow
    rw [hkept] at hrow
    obtain ⟨cut, hcut, rfl⟩ := List.mem_map.mp hrow
    exact admits_iff_of_cut hcut
  refine ⟨hkept, fun cut hcut ↦ ⟨fits_of_cut hcut, ?_⟩, clean_of_clean h, ?_, fun hshort ↦ ?_⟩
  · rw [admits_iff_of_cut hcut, ← (Width.mem_cuts.mp hcut).2.2]
    simp [hasText]
  · rw [clean_of_clean_eq_self h]
    exact forall₂_congr fun row hrow ↦ (hadmits row hrow).symm
  · intro row hrow
    rw [hkept] at hrow
    obtain ⟨cut, hcut, rfl⟩ := List.mem_map.mp hrow
    obtain ⟨hsource, hkeeps, hcutoff⟩ := Width.mem_cuts.mp hcut
    rw [List.take_of_length_le (hshort cut.1 hsource)] at hcutoff
    rw [← hcutoff, Width.admits_iff]
    exact ⟨hkeeps, hshort cut.1 hsource⟩

/-! ### A text beyond the last column -/

section LateText

def exactlyTwo : Width := ⟨2, 2, by decide, by decide⟩

/-- A line, and a row whose only text stands in the third cell. -/
def lateText : List Row := [["a", "b"], ["", "", "x"]]

theorem clean_lateText : clean exactlyTwo { rows := lateText } = .ok [["a", "b"], ["", ""]] := by
  decide +kernel

theorem cleaned_again_lateText : clean exactlyTwo { rows := lateText } = .ok [["a", "b"], ["", ""]] ∧
    clean exactlyTwo { rows := [["a", "b"], ["", ""]] } = .ok [["a", "b"]] := by
  obtain ⟨-, -, hagain, -⟩ := cleaned_again exactlyTwo { rows := lateText } _ clean_lateText
  refine ⟨clean_lateText, hagain.trans ?_⟩
  decide +kernel

/-- Cutting can leave a row that would be dropped. -/
theorem not_admits_of_clean : ¬ ∀ (w : Width) (s : RowStream) (kept : List Row),
    s.clean w = .ok kept →
      (∀ row ∈ kept, w.admits row) ∧ clean w { rows := kept } = .ok kept := by
  intro h
  have hblank := (h exactlyTwo { rows := lateText } _ clean_lateText).1 ["", ""] (by simp)
  exact absurd hblank (by decide)

end LateText

end RowStream

end CloudLedger.Table
