import CloudLedger.History
import CloudLedger.Proofs.ExactAmount
import CloudLedger.Proofs.ReportTable

/-!
# What a history keeps

Saving appends the reports of new identities and touches nothing that is there.  Saving what is
known already changes nothing at all, and what a query finds depends on the reports that it covers
only.
-/

namespace CloudLedger

variable {α : Type} {r : Report α} {reports : List (Report α)}

namespace History

variable {h : History α}

/-- The reports that saving would add. -/
def additions (h : History α) (reports : List (Report α)) : List (Report α) := fresh h.ids reports

@[ext]
theorem ext {g h : History α} (heq : g.reports = h.reports) : g = h := by
  cases g
  cases h
  simp_all

@[simp]
theorem add_reports (h : History α) (reports : List (Report α)) :
    (h.add reports).reports = h.reports ++ h.additions reports :=
  h.table.insertIgnore_reports reports

theorem insertIgnore_count (h : History α) (reports : List (Report α)) :
    (h.insertIgnore reports).2 = (h.additions reports).length :=
  h.table.insertIgnore_count reports

/-- After saving, every report saved has its identity in the history. -/
theorem mem_ids_add (hr : r ∈ reports) : r.id ∈ (h.add reports).ids := by
  rw [ids, add_reports, List.map_append, List.mem_append]
  by_cases hold : r.id ∈ h.ids
  · exact .inl hold
  · exact .inr (mem_ids_fresh (List.mem_map_of_mem hr) hold)

theorem ids_subset_add (h : History α) (reports : List (Report α)) :
    h.ids ⊆ (h.add reports).ids := by
  intro id hid
  rw [ids, add_reports, List.map_append]
  exact List.mem_append_left _ hid

theorem mem_or_mem_of_mem_add (hr : r ∈ (h.add reports).reports) :
    r ∈ h.reports ∨ r ∈ reports := by
  rw [add_reports, List.mem_append] at hr
  exact hr.imp_right fun hnew ↦ fresh_subset _ _ hnew

theorem additions_eq_nil : h.additions reports = [] ↔ ∀ r ∈ reports, r.id ∈ h.ids :=
  fresh_eq_nil

/-- Saving what is known changes nothing. -/
theorem add_eq_self (hknown : ∀ r ∈ reports, r.id ∈ h.ids) : h.add reports = h := by
  ext1
  rw [add_reports, additions_eq_nil.mpr hknown, List.append_nil]

/-- The reports of a history are the history again. -/
theorem ofReports_eq {reports : List (Report α)} (h : (reports.map Report.id).Nodup) :
    (ofReports reports).reports = reports := by
  have hall : ∀ r ∈ reports, (decide (r.id ∉ ([] : List Identity))) = true := fun r _ ↦ rfl
  rw [ofReports, add_reports, additions, List.nil_append]
  exact (fresh_eq_filter h).trans (List.filter_eq_self.mpr hall)

section Lookup

variable [Amount α]

/-- Nothing but the reports that a query covers decides its answer. -/
theorem monthToDate_congr {g h : History α} {p q : Query}
    (heq : g.reports.filter p.covers = h.reports.filter q.covers) :
    g.monthToDate p = h.monthToDate q := by
  simp only [monthToDate, heq]

theorem monthToDate_eq_none {q : Query} :
    h.monthToDate q = none ↔ h.reports.filter q.covers = [] := by
  simp [monthToDate]

theorem monthToDate_getD_eq_foldl (h : History α) (q : Query) :
    (h.monthToDate q).getD 0 =
      (h.reports.filter q.covers).foldl (fun total r ↦ total + r.measures) 0 := by
  unfold monthToDate
  by_cases hnone : h.reports.filter q.covers = []
  · simp [hnone]
  · simp [hnone]

/-- Reports that a query does not cover do not change its answer. -/
theorem monthToDate_of_append {g : History α} {new : List (Report α)} {q : Query}
    (hg : g.reports = h.reports ++ new) (hnew : new.filter q.covers = []) :
    g.monthToDate q = h.monthToDate q := by
  apply monthToDate_congr
  rw [hg, List.filter_append, hnew, List.append_nil]

theorem monthToDate_add {q : Query} (hcovers : ∀ r ∈ reports, ¬ q.covers r) :
    (h.add reports).monthToDate q = h.monthToDate q :=
  monthToDate_of_append (add_reports h reports)
    (List.filter_eq_nil_iff.mpr fun r hr ↦ hcovers r (fresh_subset _ _ hr))

/-- The sum goes on from where it was. -/
theorem monthToDate_getD_of_append {g : History α} {new : List (Report α)}
    (hg : g.reports = h.reports ++ new) (q : Query) :
    (g.monthToDate q).getD 0 =
      (new.filter q.covers).foldl (fun total r ↦ total + r.measures)
        ((h.monthToDate q).getD 0) := by
  rw [monthToDate_getD_eq_foldl, monthToDate_getD_eq_foldl, hg, List.filter_append,
    List.foldl_append]

end Lookup

/-- The answer to a query is the sum of the reports that it covers, nothing counting as zero. -/
theorem monthToDate_getD [ExactAmount α] (h : History α) (q : Query) :
    (h.monthToDate q).getD 0 = ((h.reports.filter q.covers).map Report.measures).sum := by
  rw [monthToDate_getD_eq_foldl, Measures.foldl_add_eq_sum, zero_add]

end History

end CloudLedger
