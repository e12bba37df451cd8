import CloudLedger.Proofs.Merging

/-!
# Merging in parts

Merging goes through the reports from first to last, so that it can stop anywhere and go on later
from what it has come to.  What has been merged has one report an identity, and merging it again
does nothing; therefore reports may also be merged batch by batch, each with what was merged before
it.  No law of addition is needed for this, since all sums are the same sums.

Batches that share no identity do not meet at all: each is merged as if it were alone.
-/

namespace CloudLedger

variable {α : Type} [Amount α] {r : Report α} {merged reports more : List (Report α)}

/-- Merging goes on from where it stopped. -/
theorem mergeByIdentity_append (reports more : List (Report α)) :
    mergeByIdentity (reports ++ more) =
      more.foldl (fun merged r ↦ absorb r merged) (mergeByIdentity reports) := by
  rw [mergeByIdentity_eq_foldl, mergeByIdentity_eq_foldl, List.foldl_append]

/-- A report passes over those of other identities. -/
theorem absorb_append (hnew : r.id ∉ merged.map Report.id) (more : List (Report α)) :
    absorb r (merged ++ more) = merged ++ absorb r more := by
  induction merged with
  | nil => rfl
  | cons first rest ih =>
    rw [List.map_cons, List.mem_cons, not_or] at hnew
    rw [List.cons_append, absorb, if_neg (Ne.symm hnew.1), ih hnew.2, List.cons_append]

/-- Reports of distinct identities are merged already. -/
theorem mergeByIdentity_of_nodup (h : (reports.map Report.id).Nodup) :
    mergeByIdentity reports = reports := by
  induction reports using List.reverseRecOn with
  | nil => rfl
  | append_singleton reports r ih =>
    rw [List.map_append, List.map_singleton, List.nodup_append] at h
    have hnew : r.id ∉ reports.map Report.id := fun hold ↦
      h.2.2 r.id hold r.id (List.mem_singleton_self _) rfl
    have happended := absorb_append hnew []
    rw [List.append_nil] at happended
    rw [mergeByIdentity_append_singleton, ih h.1, happended, absorb]

theorem mergeByIdentity_mergeByIdentity (reports : List (Report α)) :
    mergeByIdentity (mergeByIdentity reports) = mergeByIdentity reports :=
  mergeByIdentity_of_nodup (nodup_ids_mergeByIdentity reports)

/-- What is merged already may be merged again with more. -/
theorem mergeByIdentity_again (reports more : List (Report α)) :
    mergeByIdentity (mergeByIdentity reports ++ more) = mergeByIdentity (reports ++ more) := by
  rw [mergeByIdentity_append, mergeByIdentity_append, mergeByIdentity_mergeByIdentity]

/-- Merging batches one by one, each with what was merged before it, merges all of them. -/
theorem foldl_mergeByIdentity (batches : List (List (Report α))) (reports : List (Report α)) :
    batches.foldl (fun merged batch ↦ mergeByIdentity (merged ++ batch)) (mergeByIdentity reports) =
      mergeByIdentity (reports ++ batches.flatten) := by
  induction batches generalizing reports with
  | nil => rw [List.foldl_nil, List.flatten_nil, List.append_nil]
  | cons batch rest ih =>
    rw [List.foldl_cons, mergeByIdentity_again, ih, List.flatten_cons, List.append_assoc]

/-- Merging is incremental, for amounts of any kind and with all fields and their order: merged
reports may stand for those that they were merged from, once or batch by batch, and merging them
once more changes nothing. -/
theorem mergeByIdentity_incremental (reports more : List (Report α)) :
    mergeByIdentity (mergeByIdentity reports ++ more) = mergeByIdentity (reports ++ more) ∧
      mergeByIdentity (mergeByIdentity reports) = mergeByIdentity reports ∧
      ∀ batches : List (List (Report α)),
        batches.foldl (fun merged batch ↦ mergeByIdentity (merged ++ batch)) [] =
          mergeByIdentity batches.flatten :=
  ⟨mergeByIdentity_again reports more, mergeByIdentity_mergeByIdentity reports,
    fun batches ↦ foldl_mergeByIdentity batches []⟩

/-! ## Batches that share no identity -/

/-- Whether no report of one list has the identity of a report of the other. -/
def SharesNoIdentity (reports more : List (Report α)) : Prop :=
  ∀ r ∈ reports, ∀ s ∈ more, r.id ≠ s.id

theorem mergeByIdentity_append_of_sharesNoIdentity (h : SharesNoIdentity reports more) :
    mergeByIdentity (reports ++ more) = mergeByIdentity reports ++ mergeByIdentity more := by
  induction more using List.reverseRecOn with
  | nil => rw [List.append_nil, mergeByIdentity_nil, List.append_nil]
  | append_singleton more r ih =>
    have hmore : SharesNoIdentity reports more := fun s hs t ht ↦
      h s hs t (List.mem_append_left _ ht)
    have hnew : r.id ∉ (mergeByIdentity reports).map Report.id := by
      intro hold
      obtain ⟨s, hs, hid⟩ := List.mem_map.mp (mem_ids_mergeByIdentity.mp hold)
      exact h s hs r (List.mem_append_right _ (List.mem_singleton_self r)) hid
    rw [← List.append_assoc, mergeByIdentity_append_singleton, ih hmore, absorb_append hnew,
      mergeByIdentity_append_singleton]

/-- Batches of which no two share an identity are merged each for itself. -/
theorem mergeByIdentity_flatten {batches : List (List (Report α))}
    (h : batches.Pairwise SharesNoIdentity) :
    mergeByIdentity batches.flatten = (batches.map mergeByIdentity).flatten := by
  induction batches with
  | nil => rfl
  | cons batch rest ih =>
    obtain ⟨hfirst, hrest⟩ := List.pairwise_cons.mp h
    have hothers : SharesNoIdentity batch rest.flatten := by
      intro r hr s hs
      obtain ⟨other, hother, hs⟩ := List.mem_flatten.mp hs
      exact hfirst other hother r hr s hs
    rw [List.flatten_cons, mergeByIdentity_append_of_sharesNoIdentity hothers, ih hrest,
      List.map_cons, List.flatten_cons]

end CloudLedger
