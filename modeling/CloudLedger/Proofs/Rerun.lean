import CloudLedger.Batch
import CloudLedger.Proofs.Archive
import CloudLedger.Proofs.History
import CloudLedger.Proofs.Pipeline

/-!
# Running a batch again

What a batch saves answers none of the questions that its pipelines ask: running totals are only
taken off reports of earlier days, and all reports of the batch itself are of the day or of other
providers.  A second run on the same exports therefore yields the same reports, finds all of them in
the store and leaves it, and the disk under it, alone; only the archive is written again.
-/

namespace CloudLedger

open Files

theorem mapM_cons_run {σ β γ : Type} (f : β → StateM σ γ) (b : β) (rest : List β) (s : σ) :
    (b :: rest).mapM f s =
      (((f b s).1 :: (rest.mapM f (f b s).2).1), (rest.mapM f (f b s).2).2) := by
  rw [List.mapM_cons]
  rfl

namespace Plan

variable {σ : Type} [Store σ] [KeepsHistory σ] {plan : Plan} {o : Outcome}
  {outcomes : List Outcome} {s t : σ} {d e : Disk}

open KeepsHistory

/-! ## Storing -/

/-- An outcome that storing does not change has been saved. -/
theorem history_of_storeOutcome (h : storeOutcome o (s, d) = (o, (t, e))) :
    history t = (history s).add o.reports := by
  unfold storeOutcome at h
  split at h
  · rename_i hnone
    obtain ⟨rfl, -⟩ := Prod.mk.inj (Prod.mk.inj h).2
    rw [hnone, History.add_eq_self (by simp)]
  · split at h
    · rename_i state hsave
      obtain ⟨-, rfl⟩ := Prod.mk.inj h
      exact save_ok hsave
    · rename_i hsome _ fault state hsave
      have hresult : Except.error fault = o.result := congrArg (fun pair ↦ pair.1.result) h
      rw [Outcome.reports, ← hresult] at hsome
      exact absurd rfl hsome

theorem storeOutcome_of_known (hknown : ∀ r ∈ o.reports, r.id ∈ (history s).ids) :
    storeOutcome o (s, d) = (o, (s, d)) := by
  unfold storeOutcome
  split
  · rfl
  · rename_i hne
    rw [save_known s d hne hknown]

theorem history_of_mapM (h : outcomes.mapM storeOutcome (s, d) = (outcomes, (t, e))) :
    history t = outcomes.foldl (fun h o ↦ h.add o.reports) (history s) := by
  induction outcomes generalizing s d with
  | nil =>
    obtain ⟨rfl, -⟩ := Prod.mk.inj (Prod.mk.inj (show ([], (s, d)) = ([], (t, e)) from h)).2
    rfl
  | cons o rest ih =>
    rw [mapM_cons_run] at h
    obtain ⟨hlist, hstate⟩ := Prod.mk.inj h
    obtain ⟨hfirst, hrest⟩ := List.cons.inj hlist
    rw [List.foldl_cons, ← history_of_storeOutcome (Prod.ext hfirst rfl)]
    exact ih (Prod.ext hrest hstate)

theorem mapM_of_known (hknown : ∀ o ∈ outcomes, ∀ r ∈ o.reports, r.id ∈ (history s).ids) :
    outcomes.mapM storeOutcome (s, d) = (outcomes, (s, d)) := by
  induction outcomes with
  | nil => rfl
  | cons o rest ih =>
    rw [mapM_cons_run, storeOutcome_of_known (hknown o List.mem_cons_self),
      ih fun other hother ↦ hknown other (List.mem_cons_of_mem o hother)]

/-! ## What storing adds -/

theorem ids_subset_foldl (h : History Float) (outcomes : List Outcome) :
    h.ids ⊆ (outcomes.foldl (fun h o ↦ h.add o.reports) h).ids := by
  induction outcomes generalizing h with
  | nil => exact List.Subset.refl _
  | cons o rest ih => exact List.Subset.trans (h.ids_subset_add o.reports) (ih _)

theorem mem_ids_foldl {r : Report Float} (ho : o ∈ outcomes) (hr : r ∈ o.reports)
    (h : History Float) : r.id ∈ (outcomes.foldl (fun h o ↦ h.add o.reports) h).ids := by
  induction outcomes generalizing h with
  | nil => exact absurd ho List.not_mem_nil
  | cons first rest ih =>
    rw [List.foldl_cons]
    rcases List.mem_cons.mp ho with rfl | hrest
    · exact ids_subset_foldl _ rest (History.mem_ids_add hr)
    · exact ih hrest _

theorem monthToDate_foldl {q : Query} (hcovers : ∀ o ∈ outcomes, ∀ r ∈ o.reports, ¬ q.covers r)
    (h : History Float) :
    (outcomes.foldl (fun h o ↦ h.add o.reports) h).monthToDate q = h.monthToDate q := by
  induction outcomes generalizing h with
  | nil => rfl
  | cons o rest ih =>
    rw [List.foldl_cons, ih fun other hother ↦ hcovers other (List.mem_cons_of_mem o hother),
      History.monthToDate_add (hcovers o List.mem_cons_self)]

/-! ## What is asked -/

theorem mem_outcomes {lookup : Lookup Float} (ho : o ∈ plan.outcomes lookup d) :
    ∃ provider, o = plan.outcome lookup d provider := by
  obtain ⟨provider, -, ho⟩ := List.mem_flatMap.mp ho
  obtain ⟨p, -, rfl⟩ := List.mem_map.mp (List.mem_filter.mp ho).1
  exact ⟨p, rfl⟩

theorem yields_of_mem_outcomes {lookup : Lookup Float} (ho : o ∈ plan.outcomes lookup d)
    {r : Report Float} (hr : r ∈ o.reports) :
    ∃ provider, Pipeline.Yields plan.configuration provider r := by
  obtain ⟨provider, rfl⟩ := mem_outcomes ho
  refine ⟨provider, ?_⟩
  unfold Outcome.reports at hr
  cases hresult : (plan.outcome lookup d provider).result with
  | error fault =>
    rw [hresult] at hr
    exact absurd hr List.not_mem_nil
  | ok reports =>
    rw [hresult] at hr
    obtain ⟨exports, -, hrun⟩ := bind_eq_ok.mp hresult
    exact Pipeline.yields_of_run hrun r hr

/-! ## The second run -/

theorem exportsOf_congr (hsources : ∀ s ∈ plan.sources, s.contents e = s.contents d)
    (provider : Provider) : plan.exportsOf e provider = plan.exportsOf d provider := by
  have hmap : (plan.sourcesOf provider).mapM (Source.contents e) =
      (plan.sourcesOf provider).mapM (Source.contents d) := by
    apply mapM_congr
    intro source hsource
    exact hsources source (List.mem_filter.mp hsource).1
  rw [exportsOf, exportsOf, hmap]

/-- Once its reports are stored, the batch yields them again. -/
theorem outcomes_of_stored {g h : History Float}
    (hstored : g = (plan.outcomes h.lookup d).foldl (fun h o ↦ h.add o.reports) h)
    (hsources : ∀ s ∈ plan.sources, s.contents e = s.contents d) :
    plan.outcomes g.lookup e = plan.outcomes h.lookup d := by
  have hsame : plan.outcome g.lookup e = plan.outcome h.lookup d := by
    funext provider
    have hlookup : ∀ exports, Pipeline.run plan.configuration g.lookup provider exports =
        Pipeline.run plan.configuration h.lookup provider exports := by
      intro exports
      apply Pipeline.run_congr
      intro r q hr hq
      rw [History.lookup, History.lookup, hstored, monthToDate_foldl]
      intro o ho s hs
      obtain ⟨p, hyields⟩ := yields_of_mem_outcomes ho hs
      exact Pipeline.not_covers_of_yields hr hyields hq
    simp only [outcome, exportsOf_congr hsources, hlookup]
  rw [outcomes, outcomes, hsame]

omit [KeepsHistory σ] in
/-- A run that saves stores the outcomes of its pipelines and then archives. -/
theorem run_eq_iff (hsaves : plan.saves) {before last : σ × Disk} {summary : Summary} :
    plan.run.run before = (summary, last) ↔
      ∃ stored,
        (plan.outcomes (Store.lookup before.1) before.2).mapM storeOutcome before =
          (summary.outcomes, stored) ∧
        plan.archiveReports summary.reports stored = (summary.archived, last) := by
  have hrun : plan.run.run before =
      let (outcomes, stored) :=
        (plan.outcomes (Store.lookup before.1) before.2).mapM storeOutcome before
      let (archived, last) := plan.archiveReports (outcomes.flatMap Outcome.reports) stored
      ({ outcomes, archived }, last) := by
    rw [run]
    simp only [if_pos hsaves]
    rfl
  rw [hrun]
  generalize (plan.outcomes (Store.lookup before.1) before.2).mapM storeOutcome before = stage
  obtain ⟨outcomes, stored⟩ := stage
  obtain ⟨summaryOutcomes, summaryArchived⟩ := summary
  dsimp only [Summary.reports]
  constructor
  · intro h
    obtain ⟨hsummary, hlast⟩ := Prod.mk.inj h
    obtain ⟨rfl, harchived⟩ := Summary.mk.inj hsummary
    exact ⟨stored, rfl, Prod.ext harchived hlast⟩
  · rintro ⟨stored, hstage, harchive⟩
    obtain ⟨rfl, rfl⟩ := Prod.mk.inj hstage
    rw [harchive]

omit [Store σ] [KeepsHistory σ] in
theorem archiveReports_store (plan : Plan) (reports : List (Report Float)) (s : σ) (d : Disk) :
    (plan.archiveReports reports (s, d)).2.1 = s := by
  unfold archiveReports
  split
  · rename_i folder first rest _
    obtain ⟨written, e, h⟩ | ⟨fault, e, h⟩ := @Archive.write_store σ folder
      plan.configuration.today (first :: rest) s d
    · rw [h]
    · rw [h]
  · rfl

omit [Store σ] [KeepsHistory σ] in
/-- Archiving again comes to what it came to before: to nothing, to the same path or to a fault.  It
leaves nothing different on the disk. -/
theorem archiveReports_again {reports : List (Report Float)}
    {result : Option (Except Fault FilePath)}
    (h : plan.archiveReports reports (s, d) = (result, (t, e))) :
    ∃ result' f, plan.archiveReports reports (t, e) = (result', (t, f)) ∧
      (result = none → result' = none) ∧
      (∀ written, result = some (.ok written) →
        result' = some (.ok written) ∧ e.read written = .ok (Archive.table reports)) ∧
      (∀ fault, result = some (.error fault) → ∃ cause, result' = some (.error cause)) ∧
      (f = e ∨ ∃ folder, plan.archive = some folder ∧
        Archive.Repeats folder plan.configuration.today e f) := by
  unfold archiveReports at h
  split at h
  · rename_i folder first rest harchive
    split at h
    · rename_i path state hwrite
      cases h
      obtain ⟨f, hagain, hrepeats⟩ := Archive.write_again hwrite t
      have hread := Archive.read_eq_table hwrite
      obtain ⟨rfl, -⟩ := Archive.write_eq_ok hwrite
      refine ⟨some (.ok (Archive.path folder plan.configuration.today)), f, ?_, nofun, ?_, nofun,
        .inr ⟨folder, harchive, hrepeats⟩⟩
      · simp only [archiveReports, harchive, hagain]
      · rintro written ⟨⟩
        exact ⟨rfl, hread⟩
    · rename_i fault state hwrite
      cases h
      obtain ⟨cause, f, hagain, hrepeats⟩ := Archive.write_again_of_error hwrite t
      refine ⟨some (.error cause), f, ?_, nofun, nofun, fun _ _ ↦ ⟨cause, rfl⟩,
        .inr ⟨folder, harchive, hrepeats⟩⟩
      simp only [archiveReports, harchive, hagain]
  · rename_i hnothing
    cases h
    refine ⟨none, d, ?_, fun _ ↦ rfl, nofun, nofun, .inl rfl⟩
    unfold archiveReports
    split
    · rename_i folder first rest harchive
      exact absurd rfl (hnothing folder first rest harchive)
    · rfl

omit [Store σ] [KeepsHistory σ] in
theorem archiveReports_eq_none {reports : List (Report Float)} :
    (plan.archiveReports reports (s, d)).1 = none ↔ plan.archive = none ∨ reports = [] := by
  cases harchive : plan.archive with
  | none => simp [archiveReports, harchive]
  | some folder =>
    cases reports with
    | nil => simp [archiveReports, harchive]
    | cons first rest =>
      simp only [archiveReports, harchive]
      split <;> simp

/-- A batch that has saved everything it yielded can be run again on the same exports: it yields the
same outcomes and leaves the store as it is, and of the disk it is only the archive that is written
again, the same table at the same path.  After that the same is found at every place and read from
every path, that of a state file among them.  No place has been written to but those of the table of
the month and of its draft, so a state file that is kept elsewhere has not been touched at all. -/
theorem run_again {before after : σ × Disk} {first : Summary} (hsaves : plan.saves)
    (hrun : plan.run.run before = (first, after))
    (hstored : first.outcomes = plan.outcomes (Store.lookup before.1) before.2)
    (hsources : ∀ s ∈ plan.sources, s.contents after.2 = s.contents before.2) :
    ∃ second last, plan.run.run after = (second, last) ∧
      second.outcomes = first.outcomes ∧
      last.1 = after.1 ∧
      plan.archiveReports first.reports after = (second.archived, last) ∧
      (first.archived = none → second.archived = none) ∧
      (∀ written, first.archived = some (.ok written) →
        second.archived = some (.ok written) ∧
        after.2.read written = .ok (Archive.table first.reports) ∧
        last.2.read written = .ok (Archive.table first.reports)) ∧
      (∀ fault, first.archived = some (.error fault) →
        ∃ cause, second.archived = some (.error cause)) ∧
      (∀ place, last.2.at? place = after.2.at? place) ∧
      (∀ p, last.2.read p = after.2.read p) ∧
      ∃ changes, last.2.journal = changes ++ after.2.journal ∧
        ∀ change ∈ changes, ∀ place ∈ change.places, ∃ folder, plan.archive = some folder ∧
          (after.2.locate (Archive.path folder plan.configuration.today) = .ok place ∨
            after.2.locate (Archive.draftPath (Archive.path folder plan.configuration.today)) =
              .ok place) := by
  obtain ⟨s, d⟩ := before
  obtain ⟨u, f⟩ := after
  obtain ⟨⟨t, e⟩, hstore, harchive⟩ := (run_eq_iff hsaves).mp hrun
  obtain rfl : u = t := by
    rw [← archiveReports_store plan first.reports t e, harchive]
  -- storing changed no outcome, so the history now has all of them
  rw [← hstored] at hstore
  have hhistory := history_of_mapM hstore
  have hsame : plan.outcomes (Store.lookup u) f = first.outcomes := by
    rw [lookup_eq] at hstored ⊢
    rw [hstored] at hhistory ⊢
    exact outcomes_of_stored hhistory hsources
  have hknown : ∀ o ∈ first.outcomes, ∀ r ∈ o.reports, r.id ∈ (history u).ids := by
    intro o ho r hr
    rw [hhistory]
    exact mem_ids_foldl ho hr _
  have hagain : (plan.outcomes (Store.lookup u) f).mapM storeOutcome (u, f) =
      (first.outcomes, (u, f)) := by
    rw [hsame]
    exact mapM_of_known hknown
  obtain ⟨archived, g, hrepeat, hnone, hwritten, hfailed, hframe⟩ := archiveReports_again harchive
  have hread : ∀ p, g.read p = f.read p := by
    rcases hframe with rfl | ⟨folder, -, hrepeats⟩
    · exact fun _ ↦ rfl
    · exact hrepeats.sameEntries.read_eq
  refine ⟨⟨first.outcomes, archived⟩, (u, g), (run_eq_iff hsaves).mpr ⟨(u, f), hagain, hrepeat⟩,
    rfl, rfl, hrepeat, hnone, fun written hw ↦ ?_, hfailed, ?_, hread, ?_⟩
  · obtain ⟨hsecond, hheld⟩ := hwritten written hw
    exact ⟨hsecond, hheld, (hread written).trans hheld⟩
  · rcases hframe with rfl | ⟨folder, -, hrepeats⟩
    · exact fun _ ↦ rfl
    · exact hrepeats.sameEntries.at?_eq
  · rcases hframe with rfl | ⟨folder, hfolder, hrepeats⟩
    · exact ⟨[], rfl, by simp⟩
    · obtain ⟨changes, hjournal, hplaces⟩ := hrepeats.journal
      exact ⟨changes, hjournal, fun change hchange place hplace ↦
        ⟨folder, hfolder, hplaces change hchange place hplace⟩⟩

/-! ## A batch of one bill -/

section Bill

def bill : List UInt8 := itemExport "PayerLineItem,EC2,1,10,2"

def billPlan : Plan where
  configuration := { reference := .sixthOfApril }
  sources := [⟨.aws, .files [⟨"bill.csv"⟩]⟩]
  archive := some ⟨"archive"⟩

def beforeBill : StateFile × Disk :=
  (⟨⟨"state.json"⟩, ⟨[], List.nodup_nil⟩⟩,
    { here := [], entries := [(["bill.csv"], .file bill)] })

def billTable : FilePath := ⟨"archive/2016-April-normalized-billing-data.csv"⟩

/-- A bill that has been saved to a state file and archived can be run again, which does not touch
the state file. -/
theorem run_again_bill :
    ∃ second last changes, billPlan.run.run (billPlan.run.run beforeBill).2 = (second, last) ∧
      second.outcomes = (billPlan.run.run beforeBill).1.outcomes ∧
      last.1 = (billPlan.run.run beforeBill).2.1 ∧
      second.archived = some (.ok billTable) ∧
      last.2.read ⟨"state.json"⟩ = (billPlan.run.run beforeBill).2.2.read ⟨"state.json"⟩ ∧
      last.2.journal = changes ++ (billPlan.run.run beforeBill).2.2.journal ∧
      ∀ change ∈ changes, ["state.json"] ∉ change.places := by
  have hrun : billPlan.run.run beforeBill =
      ((billPlan.run.run beforeBill).1, (billPlan.run.run beforeBill).2) :=
    Prod.mk.eta.symm
  have hfirst :
      (billPlan.run.run beforeBill).1.outcomes =
          billPlan.outcomes (Store.lookup beforeBill.1) beforeBill.2 ∧
        (∀ s ∈ billPlan.sources,
          s.contents (billPlan.run.run beforeBill).2.2 = s.contents beforeBill.2) ∧
        (billPlan.run.run beforeBill).1.archived = some (.ok billTable) ∧
        (billPlan.run.run beforeBill).2.2.locate billTable ≠ .ok ["state.json"] ∧
        (billPlan.run.run beforeBill).2.2.locate (Archive.draftPath billTable) ≠
          .ok ["state.json"] := by
    decide +kernel
  obtain ⟨hstored, hsources, harchived, htable, hdraft⟩ := hfirst
  obtain ⟨second, last, hagain, houtcomes, hstore, -, -, hwritten, -, -, hread, changes, hjournal,
    hplaces⟩ := run_again (by decide) hrun hstored hsources
  refine ⟨second, last, changes, hagain, houtcomes, hstore, (hwritten _ harchived).1, hread _,
    hjournal, fun change hchange hplace ↦ ?_⟩
  obtain ⟨folder, hfolder, hleads⟩ := hplaces change hchange _ hplace
  cases hfolder
  exact hleads.elim htable hdraft

end Bill

end Plan

end CloudLedger
