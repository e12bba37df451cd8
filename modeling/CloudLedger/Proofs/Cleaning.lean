import CloudLedger.Proofs.Outcomes
import CloudLedger.Table.Cleaning

/-!
# What cleaning leaves

Cleaning decides on each row by itself: a row with nothing written in it or with too few cells is
dropped, and any other is kept, cut to the greatest width.  It succeeds if a row is left.
-/

namespace CloudLedger.Table

open Text

theorem filterMap_ite {β γ : Type} (p : β → Bool) (f : β → γ) (items : List β) :
    (items.filterMap fun b ↦ if p b then some (f b) else none) = (items.filter p).map f := by
  rw [← List.filterMap_eq_map, List.filterMap_filter]
  rfl

namespace Width

variable {w : Width} {row cut : Row}

/-- Whether cleaning drops a row: nothing is written in it, or it has too few cells. -/
def Drops (w : Width) (row : Row) : Prop :=
  (∀ cell ∈ row, isBlankText cell) ∨ row.length < w.least

instance (w : Width) (row : Row) : Decidable (w.Drops row) := inferInstanceAs (Decidable (_ ∨ _))

/-- What cleaning makes of a row. -/
def cleaned? (w : Width) (row : Row) : Option Row :=
  if w.Drops row then none else some (row.take w.most)

theorem cleaned?_eq_none : w.cleaned? row = none ↔ w.Drops row := by
  unfold cleaned?
  split <;> simp [*]

theorem cleaned?_eq_some : w.cleaned? row = some cut ↔ ¬ w.Drops row ∧ row.take w.most = cut := by
  unfold cleaned?
  split <;> simp [*]

theorem length_of_cleaned? (h : w.cleaned? row = some cut) : cut.length ≤ w.most := by
  obtain ⟨-, rfl⟩ := cleaned?_eq_some.mp h
  exact List.length_take_le _ _

theorem not_drops_iff : ¬ w.Drops row ↔ hasText row ∧ w.least ≤ row.length := by
  simp [Drops, hasText]

theorem filterMap_cleaned? (w : Width) (rows : List Row) :
    rows.filterMap w.cleaned? =
      ((rows.filter hasText).filter fun row ↦ w.least ≤ row.length).map (List.take w.most) := by
  rw [List.filter_filter, ← filterMap_ite]
  apply List.filterMap_congr
  intro row _
  have hkeeps : (decide (w.least ≤ row.length) && hasText row) = true ↔ ¬ w.Drops row := by
    rw [not_drops_iff, Bool.and_eq_true, decide_eq_true_eq, and_comm]
  rw [cleaned?]
  by_cases hdrops : w.Drops row
  · rw [if_pos hdrops, if_neg (mt hkeeps.mp (not_not.mpr hdrops))]
  · rw [if_neg hdrops, if_pos (hkeeps.mpr hdrops)]

end Width

/-- Cleaning succeeds exactly if a row is left. -/
theorem RowStream.clean_eq_ok {w : Width} {s : RowStream} {kept : List Row} : s.clean w = .ok kept ↔
    s.failure = none ∧ kept = s.rows.filterMap w.cleaned? ∧ kept ≠ [] := by
  rw [Width.filterMap_cleaned?]
  unfold clean
  split
  · simp [*]
  · rename_i hending
    dsimp only
    generalize hcut : ((s.rows.filter hasText).filter fun row ↦ w.least ≤ row.length).map
        (List.take w.most) = cut
    constructor
    · intro h
      split_ifs at h with hread hfilled hkept
      obtain rfl := Except.ok.inj h
      exact ⟨hending, rfl, hkept⟩
    · rintro ⟨-, rfl, hkept⟩
      have hfilled : s.rows.filter hasText ≠ [] := by
        intro hnone
        rw [hnone] at hcut
        exact hkept hcut.symm
      have hread : s.rows ≠ [] := by
        intro hnone
        rw [hnone] at hfilled
        exact hfilled rfl
      rw [if_neg hread, if_neg hfilled, if_neg hkept]

end CloudLedger.Table
