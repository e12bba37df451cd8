import CloudLedger.Merging
import Mathlib.Algebra.BigOperators.Group.List.Basic
import Mathlib.Data.List.Basic
import Mathlib.Data.List.Induction
import Mathlib.Data.List.Nodup

/-!
# What merging keeps

Merging groups reports by identity.  Every identity that occurs has exactly one merged report, in
the order of first appearance; it is the first report of its group, with the measures of the others
added to its own from left to right.  Nothing else about a report is ever changed.

The index always points to the report of an identity, so taking a report in comes to looking for the
one that it is added to.
-/

namespace CloudLedger

variable {α : Type} {r s first : Report α} {rest merged reports : List (Report α)}

/-- The reports of one identity, in order. -/
def groupOf (id : Identity) (reports : List (Report α)) : List (Report α) :=
  reports.filter fun r ↦ r.id = id

theorem mem_groupOf {id : Identity} : r ∈ groupOf id reports ↔ r ∈ reports ∧ r.id = id := by
  simp [groupOf]

/-- The groups of some identities hold, each once, the reports that have one of them. -/
theorem flatMap_groupOf_perm {ids : List Identity} (hids : ids.Nodup) (reports : List (Report α)) :
    (ids.flatMap fun id ↦ groupOf id reports).Perm (reports.filter fun r ↦ r.id ∈ ids) := by
  induction ids with
  | nil => simp
  | cons id rest ih =>
    obtain ⟨hnew, hrest⟩ := List.nodup_cons.mp hids
    have hgroup : groupOf id reports =
        (reports.filter fun r ↦ r.id ∈ id :: rest).filter fun r ↦ r.id = id := by
      rw [groupOf, List.filter_filter]
      apply List.filter_congr
      intro r _
      by_cases h : r.id = id <;> simp [h]
    have hothers : (reports.filter fun r ↦ r.id ∈ rest) =
        (reports.filter fun r ↦ r.id ∈ id :: rest).filter fun r ↦ !decide (r.id = id) := by
      rw [List.filter_filter]
      apply List.filter_congr
      intro r _
      by_cases h : r.id = id <;> simp [h, hnew]
    rw [List.flatMap_cons]
    refine ((ih hrest).append_left _).trans ?_
    rw [hgroup, hothers]
    exact List.filter_append_perm _ _

theorem groupOf_append_singleton (id : Identity) (reports : List (Report α)) (r : Report α) :
    groupOf id (reports ++ [r]) = groupOf id reports ++ if r.id = id then [r] else [] := by
  by_cases h : r.id = id <;> simp [groupOf, List.filter_append, h]

variable [Amount α]

/-- The first report of a group with the measures of the others added from left to right. -/
def Report.joined (first : Report α) (rest : List (Report α)) : Report α :=
  { first with measures := rest.foldl (fun total r ↦ total + r.measures) first.measures }

@[simp]
theorem Report.joined_id (first : Report α) (rest : List (Report α)) :
    (first.joined rest).id = first.id := rfl

theorem Report.joined_append_singleton (first r : Report α) (rest : List (Report α)) :
    first.joined (rest ++ [r]) =
      { first.joined rest with measures := (first.joined rest).measures + r.measures } := by
  simp [joined]

/-! ## One step -/

/-- Add the measures of a report to the one of the same identity, or append it if there is none,
going through what has been merged. -/
def absorb (r : Report α) : List (Report α) → List (Report α)
  | [] => [r]
  | first :: rest =>
    if first.id = r.id then { first with measures := first.measures + r.measures } :: rest
    else first :: absorb r rest

theorem absorb_eq_modify (r : Report α) (merged : List (Report α)) :
    absorb r merged = match (merged.map Report.id).idxOf? r.id with
      | some position => merged.modify position fun first ↦
          { first with measures := first.measures + r.measures }
      | none => merged ++ [r] := by
  induction merged with
  | nil => rfl
  | cons first rest ih =>
    rw [absorb, List.map_cons, List.idxOf?_cons]
    by_cases h : first.id = r.id
    · simp [h]
    · rw [if_neg h, if_neg (by simpa using h), ih]
      cases (rest.map Report.id).idxOf? r.id <;> rfl

theorem ids_absorb (r : Report α) (merged : List (Report α)) :
    (absorb r merged).map Report.id =
      if r.id ∈ merged.map Report.id then merged.map Report.id
      else merged.map Report.id ++ [r.id] := by
  induction merged with
  | nil => simp [absorb]
  | cons first rest ih =>
    by_cases h : first.id = r.id
    · simp [absorb, h]
    · have h' : r.id ≠ first.id := fun heq ↦ h heq.symm
      rw [absorb, if_neg h, List.map_cons, ih]
      by_cases hrest : r.id ∈ rest.map Report.id
      · rw [if_pos hrest, if_pos (by simp only [List.map_cons, List.mem_cons]; exact .inr hrest),
          List.map_cons]
      · rw [if_neg hrest, if_neg (by simp only [List.map_cons, List.mem_cons]; tauto),
          List.map_cons, List.cons_append]

namespace Merged

/-- Whether the index points to the report of every identity. -/
def IsIndexed (m : Merged α) : Prop :=
  ∀ id, m.index.lookup id = (m.reports.map Report.id).idxOf? id

variable {m : Merged α}

theorem reports_take (h : m.IsIndexed) (r : Report α) :
    (m.take r).reports = absorb r m.reports := by
  rw [absorb_eq_modify, ← h r.id, take]
  cases m.index.lookup r.id <;> rfl

theorem isIndexed_take (h : m.IsIndexed) (r : Report α) : (m.take r).IsIndexed := by
  intro id
  rw [reports_take h, ids_absorb, take, h r.id]
  cases hposition : (m.reports.map Report.id).idxOf? r.id with
  | some position =>
    rw [if_pos (List.isSome_idxOf?.mp (by rw [hposition]; rfl))]
    exact h id
  | none =>
    have hnew := List.idxOf?_eq_none_iff.mp hposition
    rw [if_neg hnew, List.idxOf?, List.findIdx?_append, ← List.idxOf?, ← h id]
    by_cases hid : id = r.id
    · rw [h id, hid, hposition]
      simp
    · have hother : (id == r.id) = false := by simpa using hid
      simp [List.lookup_cons, hother, Ne.symm hid]

/-- Taking reports in one after the other absorbs them in this order. -/
theorem reports_foldl_take (h : m.IsIndexed) (reports : List (Report α)) :
    (reports.foldl take m).reports = reports.foldl (fun merged r ↦ absorb r merged) m.reports := by
  induction reports generalizing m with
  | nil => rfl
  | cons r rest ih =>
    rw [List.foldl_cons, List.foldl_cons, ← reports_take h, ih (isIndexed_take h r)]

end Merged

/-- Merging by the index absorbs the reports one after the other. -/
theorem mergeByIdentity_eq_foldl (reports : List (Report α)) :
    mergeByIdentity reports = reports.foldl (fun merged r ↦ absorb r merged) [] :=
  Merged.reports_foldl_take (m := {}) (fun _ ↦ rfl) reports

theorem nodup_ids_absorb (r : Report α) (h : (merged.map Report.id).Nodup) :
    ((absorb r merged).map Report.id).Nodup := by
  rw [ids_absorb]
  split
  · exact h
  · rename_i hnew
    exact List.nodup_append.mpr ⟨h, List.nodup_singleton _, by
      rintro id hold _ hr rfl
      exact hnew (List.mem_singleton.mp hr ▸ hold)⟩

/-- Absorbing a report keeps the reports of other identities, adds to the one of its own identity,
and appends it where there is none. -/
theorem mem_absorb (h : (merged.map Report.id).Nodup) :
    s ∈ absorb r merged ↔
      (s ∈ merged ∧ s.id ≠ r.id) ∨
      (∃ old ∈ merged, old.id = r.id ∧ s = { old with measures := old.measures + r.measures }) ∨
      (s = r ∧ r.id ∉ merged.map Report.id) := by
  induction merged with
  | nil => simp [absorb]
  | cons first rest ih =>
    rw [List.map_cons, List.nodup_cons] at h
    by_cases hfirst : first.id = r.id
    · -- the report of this identity stands first, so none of the others has it
      have hother : ∀ t ∈ rest, t.id ≠ r.id := fun t ht heq ↦
        h.1 (hfirst ▸ heq ▸ List.mem_map_of_mem ht)
      rw [absorb, if_pos hfirst]
      simp only [List.mem_cons, List.map_cons]
      constructor
      · rintro (rfl | hs)
        · exact .inr (.inl ⟨first, .inl rfl, hfirst, rfl⟩)
        · exact .inl ⟨.inr hs, hother s hs⟩
      · rintro (⟨rfl | hs, hne⟩ | ⟨old, rfl | hold, heq, rfl⟩ | ⟨-, hnew⟩)
        · exact absurd hfirst hne
        · exact .inr hs
        · exact .inl rfl
        · exact absurd heq (hother old hold)
        · exact absurd (.inl hfirst.symm) hnew
    · have hfirst' : r.id ≠ first.id := fun heq ↦ hfirst heq.symm
      rw [absorb, if_neg hfirst, List.mem_cons, ih h.2]
      simp only [List.mem_cons, List.map_cons, not_or, exists_eq_or_imp]
      constructor
      · rintro (rfl | ⟨hs, hne⟩ | hold | ⟨rfl, hnew⟩)
        · exact .inl ⟨.inl rfl, hfirst⟩
        · exact .inl ⟨.inr hs, hne⟩
        · exact .inr (.inl (.inr hold))
        · exact .inr (.inr ⟨rfl, hfirst', hnew⟩)
      · rintro (⟨rfl | hs, hne⟩ | (⟨heq, -⟩ | hold) | ⟨rfl, -, hnew⟩)
        · exact .inl rfl
        · exact .inr (.inl ⟨hs, hne⟩)
        · exact absurd heq hfirst
        · exact .inr (.inr (.inl hold))
        · exact .inr (.inr (.inr ⟨rfl, hnew⟩))

/-! ## All reports -/

@[simp]
theorem mergeByIdentity_nil : mergeByIdentity ([] : List (Report α)) = [] := rfl

theorem mergeByIdentity_append_singleton (reports : List (Report α)) (r : Report α) :
    mergeByIdentity (reports ++ [r]) = absorb r (mergeByIdentity reports) := by
  simp [mergeByIdentity_eq_foldl]

/-- No two merged reports have one identity. -/
theorem nodup_ids_mergeByIdentity (reports : List (Report α)) :
    ((mergeByIdentity reports).map Report.id).Nodup := by
  induction reports using List.reverseRecOn with
  | nil => simp
  | append_singleton reports r ih =>
    rw [mergeByIdentity_append_singleton]
    exact nodup_ids_absorb r ih

/-- The merged reports stand in the order in which their identities first appear. -/
theorem ids_mergeByIdentity (reports : List (Report α)) :
    (mergeByIdentity reports).map Report.id = (reports.map Report.id).eraseDups := by
  induction reports using List.reverseRecOn with
  | nil => rfl
  | append_singleton reports r ih =>
    rw [mergeByIdentity_append_singleton, ids_absorb, ih, List.map_append, List.eraseDups_append]
    generalize reports.map Report.id = ids
    by_cases hold : r.id ∈ ids
    · simp [List.removeAll, hold]
    · simp [List.removeAll, List.eraseDups_cons, hold]

theorem mem_ids_mergeByIdentity {id : Identity} :
    id ∈ (mergeByIdentity reports).map Report.id ↔ id ∈ reports.map Report.id := by
  rw [ids_mergeByIdentity, List.mem_eraseDups]

/-- The merged reports are the groups, each joined into its first member. -/
theorem mem_mergeByIdentity :
    s ∈ mergeByIdentity reports ↔
      ∃ first rest, groupOf s.id reports = first :: rest ∧ s = first.joined rest := by
  induction reports using List.reverseRecOn generalizing s with
  | nil => simp [groupOf]
  | append_singleton reports r ih =>
    rw [mergeByIdentity_append_singleton, mem_absorb (nodup_ids_mergeByIdentity reports),
      mem_ids_mergeByIdentity, groupOf_append_singleton]
    constructor
    · rintro (⟨hs, hne⟩ | ⟨old, hold, heq, rfl⟩ | ⟨rfl, hnew⟩)
      · obtain ⟨first, rest, hgroup, hjoined⟩ := ih.mp hs
        exact ⟨first, rest, by rw [if_neg fun h ↦ hne h.symm, List.append_nil, hgroup], hjoined⟩
      · obtain ⟨first, rest, hgroup, hjoined⟩ := ih.mp hold
        refine ⟨first, rest ++ [r], ?_, ?_⟩
        · rw [if_pos heq.symm, hgroup, List.cons_append]
        · rw [Report.joined_append_singleton, ← hjoined]
      · have hnone : groupOf s.id reports = [] :=
          List.filter_eq_nil_iff.mpr fun t ht ↦ by
            simpa using fun heq : t.id = s.id ↦ hnew (heq ▸ List.mem_map_of_mem ht)
        exact ⟨s, [], by rw [if_pos rfl, hnone, List.nil_append], rfl⟩
    · rintro ⟨first, rest, hgroup, hjoined⟩
      by_cases hr : r.id = s.id
      · rw [if_pos hr] at hgroup
        rcases List.append_eq_cons_iff.mp hgroup with ⟨hnone, hfirst⟩ | ⟨init, hinit, rfl⟩
        · -- the group is this report alone
          obtain ⟨rfl, rfl⟩ := List.cons.inj hfirst
          refine .inr (.inr ⟨hjoined, fun hold ↦ ?_⟩)
          obtain ⟨t, ht, hid⟩ := List.mem_map.mp hold
          have hmem : t ∈ groupOf s.id reports := mem_groupOf.mpr ⟨ht, hid.trans hr⟩
          rw [hnone] at hmem
          exact absurd hmem List.not_mem_nil
        · have hid : first.id = s.id := (mem_groupOf.mp (hinit ▸ List.mem_cons_self)).2
          refine .inr (.inl ⟨first.joined init, ih.mpr ⟨first, init, ?_, rfl⟩, ?_, ?_⟩)
          · rw [Report.joined_id, hid, hinit]
          · rw [Report.joined_id, hid, hr]
          · rw [hjoined, Report.joined_append_singleton]
      · rw [if_neg hr, List.append_nil] at hgroup
        exact .inl ⟨ih.mpr ⟨first, rest, hgroup, hjoined⟩, fun h ↦ hr h.symm⟩

/-- Every report is in the group of exactly one merged report. -/
theorem groups_perm (reports : List (Report α)) :
    ((mergeByIdentity reports).flatMap fun s ↦ groupOf s.id reports).Perm reports := by
  have hperm := flatMap_groupOf_perm (nodup_ids_mergeByIdentity reports) reports
  rw [List.flatMap_map] at hperm
  refine hperm.trans (.of_eq (List.filter_eq_self.mpr fun r hr ↦ ?_))
  exact decide_eq_true (mem_ids_mergeByIdentity.mpr (List.mem_map_of_mem hr))

/-- What holds of all merged reports holds of all groups, each joined into its first member. -/
theorem forall_mem_mergeByIdentity_iff {P : Report α → Prop} :
    (∀ s ∈ mergeByIdentity reports, P s) ↔
      ∀ id first rest, groupOf id reports = first :: rest → P (first.joined rest) := by
  constructor
  · intro h id first rest hgroup
    have hid : first.id = id := (mem_groupOf.mp (hgroup ▸ List.mem_cons_self)).2
    exact h _ (mem_mergeByIdentity.mpr ⟨first, rest, hid ▸ hgroup, rfl⟩)
  · intro h s hs
    obtain ⟨first, rest, hgroup, hjoined⟩ := mem_mergeByIdentity.mp hs
    rw [hjoined]
    exact h s.id first rest hgroup

/-- What holds of all reports whatever their measures holds of all merged reports. -/
theorem forall_mem_mergeByIdentity {P : Report α → Prop}
    (hmeasures : ∀ (r : Report α) (m : Measures α), P r → P { r with measures := m })
    (h : ∀ r ∈ reports, P r) : ∀ s ∈ mergeByIdentity reports, P s := by
  intro s hs
  obtain ⟨first, rest, hgroup, rfl⟩ := mem_mergeByIdentity.mp hs
  have hfirst : first ∈ groupOf (first.joined rest).id reports := hgroup ▸ List.mem_cons_self
  exact hmeasures first _ (h first (mem_groupOf.mp hfirst).1)

/-! ## Totals -/

section Totals

variable {G : Type} [AddCommMonoid G] {value : Measures α → G}

/-- Where sums are exact, a joined group has the total of its members. -/
theorem value_joined (hadd : ∀ m n, value (m + n) = value m + value n) (first : Report α)
    (rest : List (Report α)) :
    value (first.joined rest).measures = ((first :: rest).map fun r ↦ value r.measures).sum := by
  induction rest using List.reverseRecOn with
  | nil => simp [Report.joined]
  | append_singleton rest r ih =>
    rw [Report.joined_append_singleton, hadd, ih, ← List.cons_append, List.map_append,
      List.sum_append, List.map_singleton, List.sum_singleton]

/-- Where sums are exact, a merged report has the total of its group. -/
theorem value_of_mem_mergeByIdentity (hadd : ∀ m n, value (m + n) = value m + value n)
    (hs : s ∈ mergeByIdentity reports) :
    value s.measures = ((groupOf s.id reports).map fun r ↦ value r.measures).sum := by
  obtain ⟨first, rest, hgroup, hjoined⟩ := mem_mergeByIdentity.mp hs
  rw [hgroup, ← value_joined hadd, ← hjoined]

/-- Where sums are exact, merging keeps the total. -/
theorem sum_mergeByIdentity (hadd : ∀ m n, value (m + n) = value m + value n)
    (reports : List (Report α)) :
    ((mergeByIdentity reports).map fun s ↦ value s.measures).sum =
      (reports.map fun r ↦ value r.measures).sum := by
  have hgroups : ∀ s ∈ mergeByIdentity reports, value s.measures =
      ((groupOf s.id reports).map fun r ↦ value r.measures).sum :=
    fun s hs ↦ value_of_mem_mergeByIdentity hadd hs
  calc ((mergeByIdentity reports).map fun s ↦ value s.measures).sum
      = ((mergeByIdentity reports).map fun s ↦
          ((groupOf s.id reports).map fun r ↦ value r.measures).sum).sum := by
        rw [List.map_congr_left hgroups]
    _ = (((mergeByIdentity reports).flatMap fun s ↦ groupOf s.id reports).map
          fun r ↦ value r.measures).sum := by
        rw [List.map_flatMap, List.flatMap_def, List.sum_flatten, List.map_map]
        rfl
    _ = (reports.map fun r ↦ value r.measures).sum :=
        ((groups_perm reports).map _).sum_eq

end Totals

end CloudLedger
