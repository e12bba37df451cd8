import CloudLedger.Proofs.FailingExports

/-!
# Figures in any order

The order of rows and of exports decides which report of an identity comes first and in which order
its measures are added.  It decides neither which identities there are nor, where sums are exact,
what they add up to: the group of an identity holds the same reports in either order.
-/

namespace CloudLedger

open Usage

variable {α : Type} {reports others : List (Report α)}

/-- Whether two lists of reports have the same identities, each once and with the same measures. -/
structure SameFigures (reports others : List (Report α)) : Prop where
  distinct : (reports.map Report.id).Nodup
  ids_perm : (reports.map Report.id).Perm (others.map Report.id)
  measures_eq : ∀ r ∈ reports, ∀ s ∈ others, r.id = s.id → r.measures = s.measures

/-- Whether two outcomes are the same fault, or reports with the same figures. -/
inductive SameOutcome : Except Fault (List (Report α)) → Except Fault (List (Report α)) → Prop
  | failed (fault : Fault) : SameOutcome (.error fault) (.error fault)
  | yielded {reports others : List (Report α)} : SameFigures reports others →
    SameOutcome (.ok reports) (.ok others)

/-! ## Reports -/

/-- Whatever addition does, the merged identities do not depend on the order. -/
theorem ids_mergeByIdentity_perm [Amount α] (h : reports.Perm others) :
    ((mergeByIdentity reports).map Report.id).Perm ((mergeByIdentity others).map Report.id) := by
  rw [List.perm_ext_iff_of_nodup (nodup_ids_mergeByIdentity reports)
    (nodup_ids_mergeByIdentity others)]
  intro id
  rw [mem_ids_mergeByIdentity, mem_ids_mergeByIdentity]
  exact (h.map Report.id).mem_iff

/-- Where sums are exact, the measures of an identity are those of its group. -/
theorem measures_of_mem_mergeByIdentity [ExactAmount α] {r : Report α}
    (hr : r ∈ mergeByIdentity reports) :
    r.measures = ((groupOf r.id reports).map Report.measures).sum := by
  have hadd (m n : Measures α) : id (m + n) = id m + id n := rfl
  exact value_of_mem_mergeByIdentity hadd hr

/-- Merged reports have the same figures in any order. -/
theorem sameFigures_mergeByIdentity [ExactAmount α] (h : reports.Perm others) :
    SameFigures (mergeByIdentity reports) (mergeByIdentity others) where
  distinct := nodup_ids_mergeByIdentity reports
  ids_perm := ids_mergeByIdentity_perm h
  measures_eq r hr s hs hid := by
    have hgroup : (groupOf r.id reports).Perm (groupOf s.id others) := hid ▸ h.filter _
    calc r.measures = ((groupOf r.id reports).map Report.measures).sum :=
          measures_of_mem_mergeByIdentity hr
      _ = ((groupOf s.id others).map Report.measures).sum := (hgroup.map _).sum_eq
      _ = s.measures := (measures_of_mem_mergeByIdentity hs).symm

/-- Rounded sums depend on the order. -/
example :
    let r (amount : Float) : Report Float :=
      ⟨⟨"a"⟩, ⟨.gcp, "1", "disk", ""⟩, "", ⟨5, 4, 2016⟩, "", ⟨amount, amount⟩⟩
    mergeByIdentity [r 0.1, r 0.2, r 0.3] ≠ mergeByIdentity [r 0.3, r 0.2, r 0.1] := by
  decide +kernel

/-! ## Exports -/

theorem Usage.Dialect.lineItems_perm (d : Dialect α) {exports exports' : List (List UInt8)}
    (h : exports.Perm exports') : (d.lineItems exports).Perm (d.lineItems exports') :=
  (h.filterMap _).flatMap_right _

namespace Pipeline

/-- The order of reports does not change which identities merging leaves, each of them once, nor,
where sums are exact, the measures of any; and the order of accepted exports changes nothing but the
order of the figures of a provider whose totals do not run. -/
theorem figures_of_perm [ExactAmount α] (c : Configuration) (lookup : Lookup α) :
    (∀ {β : Type} [Amount β] (reports others : List (Report β)), reports.Perm others →
      ((mergeByIdentity reports).map Report.id).Nodup ∧
        ((mergeByIdentity reports).map Report.id).Perm
          ((mergeByIdentity others).map Report.id)) ∧
    (∀ reports others : List (Report α), reports.Perm others →
      SameFigures (mergeByIdentity reports) (mergeByIdentity others)) ∧
    ∀ provider exports exports', provider ≠ .aws → exports.Perm exports' →
      (∀ bytes ∈ exports, (dialect c provider : Dialect α).accepts bytes) →
      SameOutcome (run c lookup provider exports).outcome
          (run c lookup provider exports').outcome ∧
        (exports ≠ [] → ∃ reports, run c lookup provider exports = .silent (.ok reports)) := by
  refine ⟨fun reports others h ↦ ⟨nodup_ids_mergeByIdentity reports, ids_mergeByIdentity_perm h⟩,
    fun reports others ↦ sameFigures_mergeByIdentity,
    fun provider exports exports' hp hperm haccepts ↦
      ⟨?_, fun hne ↦ ⟨_, run_of_accepts hp hne haccepts⟩⟩⟩
  by_cases hne : exports = []
  · subst hne
    obtain rfl := hperm.nil_eq
    rw [run_nil]
    exact .failed _
  · have hne' : exports' ≠ [] := fun hnone ↦ hne (hnone ▸ hperm).eq_nil
    have haccepts' : ∀ bytes ∈ exports', (dialect c provider : Dialect α).accepts bytes :=
      fun bytes hbytes ↦ haccepts bytes (hperm.mem_iff.mpr hbytes)
    rw [run_of_accepts hp hne haccepts, run_of_accepts hp hne' haccepts']
    exact .yielded (sameFigures_mergeByIdentity ((dialect c provider).lineItems_perm hperm))

/-! ### Two exports in either order -/

section TwoExports

def diskAndNet : List UInt8 :=
  dayExport ["disk,2016-04-05T00:00:00Z,1,0.5,a", "net,2016-04-05T00:00:00Z,2,0.25,b"]

def onlyNet : List UInt8 := dayExport ["net,2016-04-05T00:00:00Z,3,1.5,b"]

/-- A line in both exports has the same sum in either order, but another place. -/
theorem figures_of_perm_twoExports :
    let c : Configuration := { reference := .sixthOfApril }
    let lookup : Lookup ℚ := fun _ ↦ .ok none
    ((mergeByIdentity (items c .gcp [diskAndNet, onlyNet] : List (Report Float))).map
        Report.id).Perm
        ((mergeByIdentity (items c .gcp [onlyNet, diskAndNet] : List (Report Float))).map
          Report.id) ∧
      SameFigures (mergeByIdentity (items c .gcp [diskAndNet, onlyNet] : List (Report ℚ)))
        (mergeByIdentity (items c .gcp [onlyNet, diskAndNet])) ∧
      ∃ reports others, SameFigures reports others ∧
        run c lookup .gcp [diskAndNet, onlyNet] = .silent (.ok reports) ∧
        run c lookup .gcp [onlyNet, diskAndNet] = .silent (.ok others) ∧
        reports.map Report.measures = [⟨1, 1 / 2⟩, ⟨5, 7 / 4⟩] ∧
        others.map Report.measures = [⟨5, 7 / 4⟩, ⟨1, 1 / 2⟩] := by
  intro c lookup
  obtain ⟨hids, hlists, hexports⟩ := figures_of_perm c lookup
  have hswap : [diskAndNet, onlyNet].Perm [onlyNet, diskAndNet] := .swap ..
  have haccepts : ∀ bytes ∈ [diskAndNet, onlyNet], (dialect c .gcp : Dialect ℚ).accepts bytes := by
    decide +kernel
  have hne : Provider.gcp ≠ .aws := by decide
  obtain ⟨hsame, hyields⟩ := hexports .gcp _ _ hne hswap haccepts
  obtain ⟨-, hyields'⟩ := hexports .gcp _ _ hne hswap.symm
    fun bytes hbytes ↦ haccepts bytes (hswap.mem_iff.mpr hbytes)
  obtain ⟨reports, hrun⟩ := hyields (List.cons_ne_nil _ _)
  obtain ⟨others, hrun'⟩ := hyields' (List.cons_ne_nil _ _)
  have hmeasures : List.map Report.measures <$> (run c lookup .gcp [diskAndNet, onlyNet]).outcome =
      .ok [⟨1, 1 / 2⟩, ⟨5, 7 / 4⟩] := by
    decide +kernel
  have hmeasures' : List.map Report.measures <$> (run c lookup .gcp [onlyNet, diskAndNet]).outcome =
      .ok [⟨5, 7 / 4⟩, ⟨1, 1 / 2⟩] := by
    decide +kernel
  rw [hrun] at hsame hmeasures
  rw [hrun'] at hsame hmeasures'
  refine ⟨(hids _ _ (Dialect.lineItems_perm _ hswap)).2,
    hlists _ _ (Dialect.lineItems_perm _ hswap), reports, others, ?_, hrun, hrun',
    Except.ok.inj hmeasures, Except.ok.inj hmeasures'⟩
  cases hsame with
  | yielded hfigures => exact hfigures

end TwoExports

end Pipeline

end CloudLedger
