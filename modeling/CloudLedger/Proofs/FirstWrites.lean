import CloudLedger.Proofs.History

/-!
# What is saved first stays

The history of a store is what it began with and what was saved to it since, in that order, with
only the first report of every identity kept.  So it does not matter to a history whether reports
are saved at once or in pieces, and saving them again changes nothing.
-/

namespace CloudLedger

variable {α : Type} {reports : List (Report α)}

/-! ## The first report of every identity -/

/-- The first report of every identity, in order. -/
def firstOfEach (reports : List (Report α)) : List (Report α) :=
  reports.eraseDupsBy fun r s ↦ r.id = s.id

theorem firstOfEach_cons (r : Report α) (rest : List (Report α)) :
    firstOfEach (r :: rest) = r :: firstOfEach (rest.filter fun s ↦ s.id ≠ r.id) := by
  simp [firstOfEach, List.eraseDupsBy_cons]

theorem fresh_eq_firstOfEach (known : List Identity) (reports : List (Report α)) :
    fresh known reports = firstOfEach (reports.filter fun r ↦ r.id ∉ known) := by
  induction reports generalizing known with
  | nil => rfl
  | cons first rest ih =>
    unfold fresh
    split
    · rename_i hfirst
      rw [ih, List.filter_cons_of_neg (by simpa using hfirst)]
    · rename_i hfirst
      rw [ih, List.filter_cons_of_pos (by simpa using hfirst), firstOfEach_cons,
        List.filter_filter]
      congr 2
      apply List.filter_congr
      intro r _
      simp

theorem fresh_congr {known known' : List Identity} (h : ∀ id, id ∈ known ↔ id ∈ known')
    (reports : List (Report α)) : fresh known reports = fresh known' reports := by
  simp only [fresh_eq_firstOfEach, h]

theorem fresh_append (known : List Identity) (reports more : List (Report α)) :
    fresh known (reports ++ more) =
      fresh known reports ++ fresh (reports.map Report.id ++ known) more := by
  induction reports generalizing known with
  | nil => rfl
  | cons first rest ih =>
    rw [List.cons_append, fresh, fresh]
    split
    · rename_i hfirst
      rw [ih]
      congr 1
      apply fresh_congr
      grind
    · rw [ih, List.cons_append]
      congr 2
      apply fresh_congr
      grind

theorem firstOfEach_eq_fresh (reports : List (Report α)) :
    firstOfEach reports = fresh [] reports := by
  simp [fresh_eq_firstOfEach]

theorem firstOfEach_append (reports more : List (Report α)) :
    firstOfEach (reports ++ more) = firstOfEach reports ++ fresh (reports.map Report.id) more := by
  rw [firstOfEach_eq_fresh, firstOfEach_eq_fresh, fresh_append, List.append_nil]

theorem firstOfEach_of_nodup (h : (reports.map Report.id).Nodup) :
    firstOfEach reports = reports := by
  rw [firstOfEach_eq_fresh, fresh_eq_filter h]
  simp

theorem nodup_ids_firstOfEach (reports : List (Report α)) :
    ((firstOfEach reports).map Report.id).Nodup := by
  rw [firstOfEach_eq_fresh]
  exact nodup_ids_fresh _ _

theorem mem_ids_firstOfEach {id : Identity} :
    id ∈ (firstOfEach reports).map Report.id ↔ id ∈ reports.map Report.id := by
  rw [firstOfEach_eq_fresh]
  exact ⟨fun h ↦ List.map_subset _ (fresh_subset _ _) h, fun h ↦ mem_ids_fresh h List.not_mem_nil⟩

/-- What is already left out may as well be left out before more is put behind. -/
theorem firstOfEach_firstOfEach_append (reports more : List (Report α)) :
    firstOfEach (firstOfEach reports ++ more) = firstOfEach (reports ++ more) := by
  rw [firstOfEach_append, firstOfEach_append,
    firstOfEach_of_nodup (nodup_ids_firstOfEach reports)]
  congr 1
  exact fresh_congr (fun _ ↦ mem_ids_firstOfEach) more

namespace History

theorem ofReports_reports (reports : List (Report α)) :
    (ofReports reports).reports = firstOfEach reports := by
  rw [firstOfEach_eq_fresh, ofReports, add_reports, List.nil_append]
  rfl

theorem add_reports_eq_firstOfEach (h : History α) (reports : List (Report α)) :
    (h.add reports).reports = firstOfEach (h.reports ++ reports) := by
  rw [firstOfEach_append, firstOfEach_of_nodup h.distinct, add_reports]
  rfl

/-- Saving in two pieces is saving the whole. -/
theorem add_add (h : History α) (reports more : List (Report α)) :
    (h.add reports).add more = h.add (reports ++ more) := by
  ext1
  rw [add_reports_eq_firstOfEach, add_reports_eq_firstOfEach, add_reports_eq_firstOfEach,
    firstOfEach_firstOfEach_append, List.append_assoc]

/-- Saving again changes nothing. -/
theorem add_add_self (h : History α) (reports : List (Report α)) :
    (h.add reports).add reports = h.add reports :=
  add_eq_self fun _ hr ↦ mem_ids_add hr

end History

/-! ## Tables that live on -/

/-- A table that goes on with its own set of identities, in whatever order they came to it, keeps
the history that is saved to, and counts what is added. -/
theorem ReportTable.history_insertIgnore (t : ReportTable α) (reports : List (Report α)) :
    (t.insertIgnore reports).1.history = t.history.add reports ∧
      (t.insertIgnore reports).2 = (t.history.additions reports).length := by
  have hsame : fresh t.known reports = t.history.additions reports :=
    fresh_congr t.mem_known reports
  rw [t.insertIgnore_count, hsame]
  refine ⟨History.ext ?_, rfl⟩
  rw [History.add_reports, ← hsame]
  exact t.insertIgnore_reports reports

end CloudLedger
