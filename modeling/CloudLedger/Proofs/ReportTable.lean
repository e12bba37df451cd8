import CloudLedger.ReportTable
import Mathlib.Data.List.Nodup

/-!
# What a table takes in

Inserting goes through the reports one by one and asks the set of identities that grows with every
report inserted.  What is inserted altogether are the reports of identities that were not known
before, each identity once, and the count is their number.
-/

namespace CloudLedger

variable {α : Type} {known : List Identity} {r : Report α} {reports : List (Report α)}

/-- The reports whose identity is not known, each identity once. -/
def fresh (known : List Identity) : List (Report α) → List (Report α)
  | [] => []
  | r :: rest => if r.id ∈ known then fresh known rest else r :: fresh (r.id :: known) rest

theorem not_mem_of_mem_fresh {r : Report α} :
    ∀ {known : List Identity} {reports : List (Report α)}, r ∈ fresh known reports → r.id ∉ known
  | _, [], h => by simp [fresh] at h
  | known, first :: rest, h => by
    unfold fresh at h
    split at h
    · exact not_mem_of_mem_fresh h
    · rename_i hnew
      rcases List.mem_cons.mp h with rfl | hrest
      · exact hnew
      · have := not_mem_of_mem_fresh hrest
        simp only [List.mem_cons, not_or] at this
        exact this.2

theorem nodup_ids_fresh : ∀ (known : List Identity) (reports : List (Report α)),
    ((fresh known reports).map Report.id).Nodup
  | _, [] => by simp [fresh]
  | known, first :: rest => by
    unfold fresh
    split
    · exact nodup_ids_fresh known rest
    · rw [List.map_cons, List.nodup_cons]
      refine ⟨fun h ↦ ?_, nodup_ids_fresh _ rest⟩
      obtain ⟨r, hr, heq⟩ := List.mem_map.mp h
      exact not_mem_of_mem_fresh hr (heq ▸ List.mem_cons_self)

theorem fresh_subset : ∀ (known : List Identity) (reports : List (Report α)),
    fresh known reports ⊆ reports
  | _, [] => by simp [fresh]
  | known, first :: rest => by
    unfold fresh
    split
    · exact List.subset_cons_of_subset first (fresh_subset known rest)
    · exact List.cons_subset_cons first (fresh_subset _ rest)

theorem mem_ids_fresh {id : Identity} : ∀ {known : List Identity} {reports : List (Report α)},
    id ∈ reports.map Report.id → id ∉ known → id ∈ (fresh known reports).map Report.id
  | _, [], h, _ => by simp at h
  | known, first :: rest, h, hnew => by
    rw [List.map_cons, List.mem_cons] at h
    unfold fresh
    split
    · rename_i hfirst
      have hrest : id ∈ rest.map Report.id := h.resolve_left fun heq ↦ hnew (heq ▸ hfirst)
      exact mem_ids_fresh hrest hnew
    · by_cases heq : id = first.id
      · simp [heq]
      · have hfresh : id ∉ first.id :: known := by simp [heq, hnew]
        exact List.mem_cons_of_mem _ (mem_ids_fresh (h.resolve_left heq) hfresh)

/-- Nothing is new exactly if every identity is known. -/
theorem fresh_eq_nil : ∀ {known : List Identity} {reports : List (Report α)},
    fresh known reports = [] ↔ ∀ r ∈ reports, r.id ∈ known
  | _, [] => by simp [fresh]
  | known, first :: rest => by
    unfold fresh
    split
    · rename_i hfirst
      simp [fresh_eq_nil, hfirst]
    · rename_i hfirst
      simp [hfirst]

/-- Reports of distinct identities are new each for itself. -/
theorem fresh_eq_filter : ∀ {known : List Identity} {reports : List (Report α)},
    (reports.map Report.id).Nodup → fresh known reports = reports.filter fun r ↦ r.id ∉ known
  | _, [], _ => rfl
  | known, first :: rest, h => by
    rw [List.map_cons, List.nodup_cons] at h
    unfold fresh
    split
    · rename_i hfirst
      rw [fresh_eq_filter h.2, List.filter_cons_of_neg (by simpa using hfirst)]
    · rename_i hfirst
      rw [fresh_eq_filter h.2, List.filter_cons_of_pos (by simpa using hfirst)]
      congr 1
      apply List.filter_congr
      intro r hr
      have hne : r.id ≠ first.id := fun heq ↦ h.1 (heq ▸ List.mem_map_of_mem hr)
      simp [hne]

namespace ReportTable

/-- A table takes in what is new, counts it, and knows the identities of it all. -/
theorem foldl_insertOne (t : ReportTable α) (inserted : Nat) (reports : List (Report α)) :
    (reports.foldl insertOne (t, inserted)).1.reports = t.reports ++ fresh t.known reports ∧
      (reports.foldl insertOne (t, inserted)).2 = inserted + (fresh t.known reports).length := by
  induction reports generalizing t inserted with
  | nil => simp [fresh]
  | cons r rest ih =>
    rw [List.foldl_cons, fresh]
    by_cases hold : r.id ∈ t.known
    · rw [insertOne, dif_pos hold, if_pos hold]
      exact ih t inserted
    · rw [insertOne, dif_neg hold, if_neg hold]
      obtain ⟨hreports, hcount⟩ := ih (t.push r hold) (inserted + 1)
      rw [hreports, hcount, List.length_cons]
      constructor
      · exact List.append_assoc t.reports [r] _
      · change inserted + 1 + (fresh (r.id :: t.known) rest).length = _
        omega

theorem insertIgnore_reports (t : ReportTable α) (reports : List (Report α)) :
    (t.insertIgnore reports).1.reports = t.reports ++ fresh t.known reports :=
  (foldl_insertOne t 0 reports).1

theorem insertIgnore_count (t : ReportTable α) (reports : List (Report α)) :
    (t.insertIgnore reports).2 = (fresh t.known reports).length :=
  (foldl_insertOne t 0 reports).2.trans (Nat.zero_add _)

end ReportTable

end CloudLedger
