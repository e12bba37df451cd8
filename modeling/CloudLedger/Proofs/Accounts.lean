import CloudLedger.Proofs.Rerun
import CloudLedger.Proofs.Sources
import CloudLedger.Proofs.Transcripts

/-!
# The accounts of a batch

A store can be put under a recorder, which writes down what is saved to it and how that was answered
and changes nothing else.  A batch then leaves one account a provider: what came of its pipeline,
how saving that was answered, and what came of it in the end.  A provider that fails, wherever it
does, takes nothing from the others, is not archived and adds nothing to the store.
-/

namespace CloudLedger

open Files

/-- A store under a recorder. -/
structure Recorded (σ : Type) where
  store : σ
  calls : List (List (Report Float) × Except Fault Unit) := []

instance {σ : Type} [Store σ] : Store (Recorded σ) where
  lookup r := Store.lookup r.store
  save reports := fun (r, disk) ↦
    match (Store.save reports).run (r.store, disk) with
    | .ok _ (store, disk) => .ok () (⟨store, r.calls ++ [(reports, .ok ())]⟩, disk)
    | .error fault (store, disk) =>
      .error fault (⟨store, r.calls ++ [(reports, .error fault)]⟩, disk)

/-- The account of a provider. -/
structure Account where
  before : Outcome
  /-- How saving was answered, if there was something to save. -/
  answer : Option (Except Fault Unit)
  after : Outcome

namespace Account

/-- What was saved, and how that was answered. -/
def call? (a : Account) : Option (List (Report Float) × Except Fault Unit) :=
  a.answer.map fun answer ↦ (a.before.reports, answer)

/-- Whether reports were saved exactly if there were any, and what came of a provider is what came
of its pipeline unless saving was refused. -/
structure InOrder (a : Account) : Prop where
  saved_iff : a.answer.isSome ↔ a.before.succeeded ∧ a.before.reports ≠ []
  succeeded_iff : a.after.succeeded ↔ a.before.succeeded ∧ ∀ answer ∈ a.answer, answer = .ok ()
  kept : (∀ fault, a.answer ≠ some (.error fault)) → a.after = a.before
  refused : ∀ fault, a.answer = some (.error fault) →
    a.after = { a.before with result := .error fault }

/-- What is left of reports in the end are those of the pipeline, or none. -/
theorem InOrder.reports_eq {a : Account} (h : a.InOrder) :
    a.after.reports = if a.after.succeeded then a.before.reports else [] := by
  split_ifs with hsucceeded
  · have hkept : ∀ fault, a.answer ≠ some (.error fault) := by
      intro fault hanswer
      cases (h.succeeded_iff.mp hsucceeded).2 _ hanswer
    rw [h.kept hkept]
  · unfold Outcome.reports
    unfold Outcome.succeeded at hsucceeded
    cases hresult : a.after.result with
    | error fault => rfl
    | ok reports => simp [hresult, Except.isOk, Except.toBool] at hsucceeded

end Account

variable {σ : Type} [Store σ] {plan : Plan} {o o' : Outcome} {outcomes outcomes' : List Outcome}
  {reports : List (Report Float)} {s t : σ} {d e : Disk}

namespace Recorded

variable {fault : Fault} {calls : List (List (Report Float) × Except Fault Unit)}

theorem save_ok (h : (Store.save reports).run (s, d) = .ok () (t, e)) :
    (Store.save reports).run ((⟨s, calls⟩ : Recorded σ), d) =
      .ok () (⟨t, calls ++ [(reports, .ok ())]⟩, e) := by
  change (match (Store.save reports).run (s, d) with
    | .ok _ (store, disk) => _
    | .error fault (store, disk) => _) = _
  rw [h]

theorem save_error (h : (Store.save reports).run (s, d) = .error fault (t, e)) :
    (Store.save reports).run ((⟨s, calls⟩ : Recorded σ), d) =
      .error fault (⟨t, calls ++ [(reports, .error fault)]⟩, e) := by
  change (match (Store.save reports).run (s, d) with
    | .ok _ (store, disk) => _
    | .error fault (store, disk) => _) = _
  rw [h]

end Recorded

namespace Plan

/-! ## One outcome -/

theorem succeeded_of_reports (h : o.reports ≠ []) : o.succeeded := by
  unfold Outcome.reports at h
  unfold Outcome.succeeded
  cases hresult : o.result with
  | error fault => simp [hresult, Except.toOption] at h
  | ok reports => rfl

theorem storeOutcome_of_nil (h : o.reports = []) (state : σ × Disk) :
    storeOutcome o state = (o, state) := by
  simp only [storeOutcome, h]

theorem storeOutcome_of_ok {state state' : σ × Disk} (hne : o.reports ≠ [])
    (h : (Store.save o.reports).run state = .ok () state') :
    storeOutcome o state = (o, state') := by
  unfold storeOutcome
  split
  · rename_i hnone
    exact absurd hnone hne
  · rw [h]

theorem storeOutcome_of_error {state state' : σ × Disk} {fault : Fault} (hne : o.reports ≠ [])
    (h : (Store.save o.reports).run state = .error fault state') :
    storeOutcome o state = ({ o with result := .error fault }, state') := by
  unfold storeOutcome
  split
  · rename_i hnone
    exact absurd hnone hne
  · rw [h]

/-- Storing an outcome leaves an account, under a recorder as without one. -/
theorem storeOutcome_recorded (h : storeOutcome o (s, d) = (o', (t, e))) :
    ∃ a : Account, a.before = o ∧ a.after = o' ∧ a.InOrder ∧ ∀ calls,
      storeOutcome o ((⟨s, calls⟩ : Recorded σ), d) = (o', (⟨t, calls ++ a.call?.toList⟩, e)) := by
  by_cases hne : o.reports = []
  · rw [storeOutcome_of_nil hne] at h
    cases h
    refine ⟨⟨o, none, o⟩, rfl, rfl, ⟨by simp [hne], by simp, fun _ ↦ rfl, by simp⟩, ?_⟩
    intro calls
    rw [storeOutcome_of_nil hne]
    simp [Account.call?]
  · have hsucceeded := succeeded_of_reports hne
    cases hsave : (Store.save o.reports).run (s, d) with
    | ok _ state =>
      rw [storeOutcome_of_ok hne hsave] at h
      cases h
      refine ⟨⟨o, some (.ok ()), o⟩, rfl, rfl,
        ⟨by simp [hne, hsucceeded], by simp, fun _ ↦ rfl, by simp⟩, ?_⟩
      intro calls
      exact storeOutcome_of_ok hne (Recorded.save_ok hsave)
    | error fault state =>
      rw [storeOutcome_of_error hne hsave] at h
      cases h
      refine ⟨⟨o, some (.error fault), { o with result := .error fault }⟩, rfl, rfl,
        ⟨by simp [hne, hsucceeded], by simp [Outcome.succeeded, Except.isOk, Except.toBool],
          fun hkept ↦ absurd rfl (hkept fault), ?_⟩, ?_⟩
      · rintro _ ⟨⟩
        rfl
      · intro calls
        exact storeOutcome_of_error hne (Recorded.save_error hsave)

/-- What is left of an outcome is in the history, and nothing else has come to it. -/
theorem history_add_of_storeOutcome [KeepsHistory σ] [RefusesCleanly σ]
    (h : storeOutcome o (s, d) = (o', (t, e))) :
    KeepsHistory.history t = (KeepsHistory.history s).add o'.reports := by
  by_cases hne : o.reports = []
  · rw [storeOutcome_of_nil hne] at h
    cases h
    rw [hne, History.add_eq_self (by simp)]
  · cases hsave : (Store.save o.reports).run (s, d) with
    | ok _ state =>
      rw [storeOutcome_of_ok hne hsave] at h
      cases h
      exact KeepsHistory.save_ok hsave
    | error fault state =>
      rw [storeOutcome_of_error hne hsave] at h
      cases h
      rw [RefusesCleanly.save_error hsave]
      exact (History.add_eq_self (by simp [Outcome.reports, Except.toOption])).symm

/-! ## All outcomes -/

theorem mapM_recorded (h : outcomes.mapM storeOutcome (s, d) = (outcomes', (t, e))) :
    ∃ accounts : List Account, accounts.map Account.before = outcomes ∧
      accounts.map Account.after = outcomes' ∧ (∀ a ∈ accounts, a.InOrder) ∧ ∀ calls,
        outcomes.mapM storeOutcome ((⟨s, calls⟩ : Recorded σ), d) =
          (outcomes', (⟨t, calls ++ accounts.filterMap Account.call?⟩, e)) := by
  induction outcomes generalizing s d outcomes' with
  | nil =>
    cases h
    refine ⟨[], rfl, rfl, by simp, ?_⟩
    intro calls
    rw [List.filterMap_nil, List.append_nil]
    rfl
  | cons o rest ih =>
    rw [mapM_cons_run] at h
    cases hfirst : storeOutcome o (s, d) with
    | mk first next =>
      obtain ⟨u, f⟩ := next
      cases hrest : rest.mapM storeOutcome (u, f) with
      | mk others last =>
        rw [hfirst, hrest] at h
        cases h
        obtain ⟨a, rfl, rfl, ha, hcall⟩ := storeOutcome_recorded hfirst
        obtain ⟨accounts, rfl, rfl, haccounts, hcalls⟩ := ih hrest
        refine ⟨a :: accounts, rfl, rfl, List.forall_mem_cons.mpr ⟨ha, haccounts⟩, ?_⟩
        intro calls
        rw [mapM_cons_run, hcall, hcalls, List.filterMap_cons, List.append_assoc]
        cases a.call? <;> rfl

theorem history_add_of_mapM [KeepsHistory σ] [RefusesCleanly σ]
    (h : outcomes.mapM storeOutcome (s, d) = (outcomes', (t, e))) :
    KeepsHistory.history t =
      (KeepsHistory.history s).add (outcomes'.flatMap Outcome.reports) := by
  induction outcomes generalizing s d outcomes' with
  | nil =>
    cases h
    exact (History.add_eq_self (by simp)).symm
  | cons o rest ih =>
    rw [mapM_cons_run] at h
    cases hfirst : storeOutcome o (s, d) with
    | mk first next =>
      obtain ⟨u, f⟩ := next
      cases hrest : rest.mapM storeOutcome (u, f) with
      | mk others last =>
        rw [hfirst, hrest] at h
        cases h
        rw [ih hrest, history_add_of_storeOutcome hfirst, History.add_add, List.flatMap_cons]

/-! ## Archiving -/

omit [Store σ] in
/-- Archiving does not depend on the store. -/
theorem archiveReports_congr {τ : Type} (plan : Plan) (reports : List (Report Float)) (s : σ)
    (s' : τ) (d : Disk) :
    plan.archiveReports reports (s', d) =
      ((plan.archiveReports reports (s, d)).1, (s', (plan.archiveReports reports (s, d)).2.2)) := by
  unfold archiveReports
  split
  · rename_i folder first rest _
    rw [Archive.write_congr s]
    cases (Archive.write folder plan.configuration.today (first :: rest)).run (s, d) <;> rfl
  · rfl

omit [Store σ] in
theorem archiveReports_eq_ok {written : FilePath}
    (h : plan.archiveReports reports (s, d) = (some (.ok written), (t, e))) :
    ∃ folder, plan.archive = some folder ∧
      written = Archive.path folder plan.configuration.today ∧
      e.read written = .ok (Archive.table reports) := by
  unfold archiveReports at h
  split at h
  · rename_i folder first rest harchive
    split at h
    · rename_i path state hwrite
      obtain ⟨hpath, rfl⟩ := Prod.mk.inj h
      obtain rfl : path = written := by simpa using hpath
      have hread := Archive.read_eq_table hwrite
      obtain ⟨rfl, -⟩ := Archive.write_eq_ok hwrite
      exact ⟨folder, harchive, rfl, hread⟩
    · cases h
  · cases h

/-! ## The whole batch -/

/-- Of a batch that saves there are accounts.  A provider whose pipeline failed, or for which saving
was refused, takes nothing from the others; every list of reports that there is is saved once, in
the order of the providers; and what is left in the end is archived and is what the store has more.
-/
theorem accounts_of_run {summary : Summary} (hsaves : plan.saves)
    (hrun : plan.run.run (s, d) = (summary, (t, e))) :
    (∀ q sources d', (∀ p, p ≠ q → sources.filter (fun s ↦ s.provider = p) = plan.sourcesOf p) →
      (∀ s ∈ plan.sources, s.provider ≠ q → s.contents d' = s.contents d) →
      ((plan.withSources sources).outcomes (Store.lookup s) d').filter (fun o ↦ o.provider ≠ q) =
        (plan.outcomes (Store.lookup s) d).filter fun o ↦ o.provider ≠ q) ∧
    ∃ accounts : List Account,
      accounts.map Account.before = plan.providers.map (plan.outcome (Store.lookup s) d) ∧
      accounts.map Account.after = summary.outcomes ∧
      (∀ a ∈ accounts, a.InOrder) ∧
      plan.run.run ((⟨s, []⟩ : Recorded σ), d) =
        (summary, (⟨t, accounts.filterMap Account.call?⟩, e)) ∧
      summary.reports =
        (accounts.filter fun a ↦ a.after.succeeded).flatMap (fun a ↦ a.before.reports) ∧
      (summary.archived = none ↔ plan.archive = none ∨ summary.reports = []) ∧
      (∀ written, summary.archived = some (.ok written) →
        ∃ folder, plan.archive = some folder ∧
          written = Archive.path folder plan.configuration.today ∧
          e.read written = .ok (Archive.table summary.reports)) ∧
      ∀ [KeepsHistory σ] [RefusesCleanly σ], (KeepsHistory.history t).reports =
        firstOfEach ((KeepsHistory.history s).reports ++ summary.reports) := by
  obtain ⟨⟨u, f⟩, hstore, harchive⟩ := (run_eq_iff hsaves).mp hrun
  obtain ⟨accounts, hbefore, hafter, horder, hrecorded⟩ := mapM_recorded hstore
  have hstay : t = u := by
    rw [← archiveReports_store plan summary.reports u f, harchive]
  refine ⟨fun q sources d' hothers hcontents ↦ outcomes_of_others hothers hcontents _,
    accounts, hbefore.trans (outcomes_eq_map ..), hafter, horder, ?_, ?_, ?_, ?_, ?_⟩
  · refine (run_eq_iff hsaves).mpr ⟨_, hrecorded [], ?_⟩
    rw [archiveReports_congr plan summary.reports u, harchive, hstay]
    rfl
  · rw [Summary.reports, ← hafter, List.flatMap_map, flatMap_filter]
    apply List.flatMap_congr
    intro a ha
    exact (horder a ha).reports_eq
  · have hnone : (plan.archiveReports summary.reports (u, f)).1 = none ↔ _ :=
      archiveReports_eq_none
    rwa [harchive] at hnone
  · intro written hwritten
    rw [hwritten] at harchive
    exact archiveReports_eq_ok harchive
  · intro _ _
    rw [hstay, history_add_of_mapM hstore, History.add_reports_eq_firstOfEach, Summary.reports]

section Incomplete

/-- The bill of one provider is there, the only file of another one is missing. -/
def incompletePlan : Plan :=
  billPlan.withSources (⟨.azure, .files [⟨"usage.csv"⟩]⟩ :: billPlan.sources)

/-- A state file that cannot be written, for a file is in the place of its folder. -/
def misplacedFile : StateFile := ⟨⟨"bill.csv/state.json"⟩, ⟨[], List.nodup_nil⟩⟩

/-- In memory the bill is saved and archived although the other provider fails; if it cannot be
saved, both fail, nothing is archived and the history stays empty. -/
theorem accounts_of_run_incomplete :
    (∃ summary history disk, incompletePlan.run.run (beforeBill.1.history, beforeBill.2) =
        (summary, (history, disk)) ∧
      summary.failed = [.azure] ∧ history.reports = firstOfEach summary.reports ∧
      disk.read billTable = .ok (Archive.table summary.reports)) ∧
    ∃ summary file disk, incompletePlan.run.run (misplacedFile, beforeBill.2) =
        (summary, (file, disk)) ∧
      summary.failed = [.azure, .aws] ∧ file.history.reports = [] ∧ summary.archived = none := by
  constructor
  · obtain ⟨hfailed, harchived⟩ :
        (incompletePlan.run.run (beforeBill.1.history, beforeBill.2)).1.failed = [.azure] ∧
          (incompletePlan.run.run (beforeBill.1.history, beforeBill.2)).1.archived =
            some (.ok billTable) := by
      decide +kernel
    generalize hrun : incompletePlan.run.run (beforeBill.1.history, beforeBill.2) = after
      at hfailed harchived
    obtain ⟨summary, history, disk⟩ := after
    obtain ⟨-, accounts, -, -, -, -, -, -, hwritten, hhistory⟩ := accounts_of_run (by rfl) hrun
    obtain ⟨folder, -, -, hread⟩ := hwritten billTable harchived
    exact ⟨summary, history, disk, rfl, hfailed, hhistory, hread⟩
  · have hfailed :
        (incompletePlan.run.run (misplacedFile, beforeBill.2)).1.failed = [.azure, .aws] ∧
          (incompletePlan.run.run (misplacedFile, beforeBill.2)).1.reports = [] := by
      decide +kernel
    generalize hrun : incompletePlan.run.run (misplacedFile, beforeBill.2) = after at hfailed
    obtain ⟨summary, file, disk⟩ := after
    obtain ⟨-, accounts, -, -, -, -, -, harchived, -, hhistory⟩ := accounts_of_run (by rfl) hrun
    obtain ⟨hfailed, hnone⟩ := hfailed
    refine ⟨summary, file, disk, rfl, hfailed, ?_, harchived.mpr (.inr hnone)⟩
    rw [show file.history.reports = _ from hhistory, hnone]
    rfl

end Incomplete

end Plan

end CloudLedger
