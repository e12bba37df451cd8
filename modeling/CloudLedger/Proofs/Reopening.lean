import CloudLedger.Proofs.Finiteness
import CloudLedger.Proofs.StateFile.Replacing
import CloudLedger.Proofs.StateFile.Survival

/-!
# Opening a state file again

A state file that has been written is opened again exactly if all figures in it are finite.  It then
holds the same reports in the same order, each with what becomes of its figures when they are
written and read.
-/

namespace CloudLedger

open Files Amount

namespace StateFile

variable {s t u : StateFile} {d e : Disk} {r v : Report Float} {reports : List (Report Float)}

/-! ## What is read -/

theorem rereadReport_eq_ok : rereadReport r = .ok v ↔
    ∃ usage cost, reread r.measures.usage = .ok usage ∧ reread r.measures.cost = .ok cost ∧
      v = { r with measures := ⟨usage, cost⟩ } := by
  rw [rereadReport]
  cases reread r.measures.usage with
  | error fault => simp [bind, Except.bind]
  | ok usage =>
    cases reread r.measures.cost with
    | error fault => simp [bind, Except.bind]
    | ok cost => simp [bind, Except.bind, pure, Except.pure, eq_comm]

theorem rereadReport_ok_iff : (∃ v, rereadReport r = .ok v) ↔ r.measures.IsFinite := by
  simp only [rereadReport_eq_ok]
  rw [Measures.IsFinite, ← reread_ok_iff, ← reread_ok_iff]
  constructor
  · rintro ⟨v, usage, cost, husage, hcost, -⟩
    exact ⟨⟨usage, husage⟩, cost, hcost⟩
  · rintro ⟨⟨usage, husage⟩, cost, hcost⟩
    exact ⟨_, usage, cost, husage, hcost, rfl⟩

theorem id_of_reread (h : rereadReport r = .ok v) : v.id = r.id := by
  obtain ⟨usage, cost, -, -, rfl⟩ := rereadReport_eq_ok.mp h
  rfl

/-- The reports that are read have the identities of those that were written. -/
theorem nodup_ids_of_reread {results : List (Report Float)}
    (h : List.Forall₂ (fun r v ↦ rereadReport r = .ok v) reports results)
    (hnodup : (reports.map Report.id).Nodup) : (results.map Report.id).Nodup := by
  have hids : reports.map Report.id = results.map Report.id := by
    rw [← List.forall₂_eq_eq_eq, List.forall₂_map_left_iff, List.forall₂_map_right_iff]
    exact h.imp fun r v hreread ↦ (id_of_reread hreread).symm
  exact hids ▸ hnodup

theorem load_of_written (h : Written s d) :
    load s.path d = match s.history.reports.mapM rereadReport with
      | .ok results => .ok ⟨s.path, .ofReports results⟩
      | .error cause => .error (.document cause) := by
  rw [load, h]
  cases hresults : s.history.reports.mapM rereadReport with
  | ok results =>
    have hread := (read_render s.history.reports).trans hresults
    simp only [hread]
  | error cause =>
    have hread := (read_render s.history.reports).trans hresults
    simp only [hread]

/-- What was written is opened again exactly if all its figures are finite. -/
theorem load_ok_iff (h : Written s d) :
    (∃ u, load s.path d = .ok u) ↔ ∀ r ∈ s.history.reports, r.measures.IsFinite := by
  have hreports : (∃ results, s.history.reports.mapM rereadReport = .ok results) ↔
      ∀ r ∈ s.history.reports, r.measures.IsFinite := by
    simp only [mapM_ok_iff, rereadReport_ok_iff]
  rw [load_of_written h, ← hreports]
  cases s.history.reports.mapM rereadReport with
  | ok results => exact iff_of_true ⟨_, rfl⟩ ⟨results, rfl⟩
  | error cause => simp

/-- A state file that is opened again holds what becomes of each report. -/
theorem reread_of_load (h : Written s d) (hload : load s.path d = .ok u) :
    u.path = s.path ∧
      List.Forall₂ (fun r v ↦ rereadReport r = .ok v) s.history.reports u.history.reports := by
  rw [load_of_written h] at hload
  split at hload
  · rename_i results hresults
    cases hload
    have hall := mapM_eq_ok.mp hresults
    refine ⟨rfl, ?_⟩
    rwa [History.ofReports_eq (nodup_ids_of_reread hall s.history.distinct)]
  · cases hload

/-! ## What survives -/

variable {q : Query} {results : List (Report Float)}

theorem eq_iff_survive (h : rereadReport r = .ok v) : v = r ↔ r.measures.Survive := by
  obtain ⟨usage, cost, husage, hcost, rfl⟩ := rereadReport_eq_ok.mp h
  rw [Measures.Survive, Survives, Survives, husage, hcost, Except.ok.injEq, Except.ok.injEq]
  constructor
  · intro heq
    have hmeasures : (⟨usage, cost⟩ : Measures Float) = r.measures := congrArg Report.measures heq
    exact ⟨congrArg Measures.usage hmeasures, congrArg Measures.cost hmeasures⟩
  · rintro ⟨rfl, rfl⟩
    rfl

theorem covers_of_reread (h : rereadReport r = .ok v) (q : Query) : q.covers v = q.covers r := by
  obtain ⟨usage, cost, -, -, rfl⟩ := rereadReport_eq_ok.mp h
  rfl

/-- What a query covers is read as it was written if all of it survives. -/
theorem filter_covers_of_survive
    (h : List.Forall₂ (fun r v ↦ rereadReport r = .ok v) reports results)
    (hsurvive : ∀ r ∈ reports, q.covers r → r.measures.Survive) :
    results.filter q.covers = reports.filter q.covers := by
  induction h with
  | nil => rfl
  | @cons r v reports results hreread _ ih =>
    have hrest := ih fun w hw ↦ hsurvive w (List.mem_cons_of_mem r hw)
    have hsame := covers_of_reread hreread q
    by_cases hcovers : q.covers r
    · have heq : v = r := (eq_iff_survive hreread).mpr (hsurvive r List.mem_cons_self hcovers)
      rw [heq, List.filter_cons_of_pos hcovers, List.filter_cons_of_pos hcovers, hrest]
    · rw [List.filter_cons_of_neg hcovers, List.filter_cons_of_neg (by rwa [hsame]), hrest]

theorem eq_iff_all_survive
    (h : List.Forall₂ (fun r v ↦ rereadReport r = .ok v) reports results) :
    results = reports ↔ ∀ r ∈ reports, r.measures.Survive := by
  induction h with
  | nil => simp
  | cons hreread _ ih => rw [List.cons.injEq, List.forall_mem_cons, eq_iff_survive hreread, ih]

theorem lookup_of_survive
    (h : List.Forall₂ (fun r v ↦ rereadReport r = .ok v) t.history.reports u.history.reports)
    (hsurvive : ∀ r ∈ t.history.reports, q.covers r → r.measures.Survive) :
    Store.lookup u q = Store.lookup t q := by
  change Except.ok (u.history.monthToDate q) = .ok (t.history.monthToDate q)
  rw [History.monthToDate_congr (filter_covers_of_survive h hsurvive)]

/-- A save that finds something new is read back with those figures that survive: the state file
that is opened again is the same exactly if all do, and it answers alike what covers only figures
that do.  Figures whose digits and power of ten are exact survive. -/
theorem reopened_iff_survive (hsave : (Store.save reports).run (s, d) = .ok () (t, e)) :
    (s.history.additions reports = [] → t = s ∧ e = d) ∧
    (s.history.additions reports ≠ [] → (∀ r ∈ t.history.reports, r.measures.IsFinite) →
      ∃ u, load t.path e = .ok u ∧
        List.Forall₂ (fun r v ↦ rereadReport r = .ok v ∧ (v = r ↔ r.measures.Survive))
          t.history.reports u.history.reports ∧
        (u = t ↔ ∀ r ∈ t.history.reports, r.measures.Survive) ∧
        (∀ q, (∀ r ∈ t.history.reports, q.covers r → r.measures.Survive) →
          Store.lookup u q = Store.lookup t q) ∧
        (∀ lookupRule totals,
          (∀ total ∈ totals, ∀ q, Delta.query? lookupRule total = .ok (some q) →
            ∀ r ∈ t.history.reports, q.covers r → r.measures.Survive) →
          Delta.apply (Store.lookup u) lookupRule totals =
            Delta.apply (Store.lookup t) lookupRule totals)) ∧
    ∀ x b, view x = .finite b → IsShort b → Survives x := by
  refine ⟨eq_of_save hsave, fun hnew hfinite ↦ ?_, fun x b ↦ survives_of_short⟩
  have hwritten : Written t e := written_of_save hsave hnew
  obtain ⟨u, hload⟩ := (load_ok_iff hwritten).mpr hfinite
  obtain ⟨hpath, hreports⟩ := reread_of_load hwritten hload
  have hlookup : ∀ q, (∀ r ∈ t.history.reports, q.covers r → r.measures.Survive) →
      Store.lookup u q = Store.lookup t q := fun q ↦ lookup_of_survive hreports
  refine ⟨u, hload, hreports.imp fun r v h ↦ ⟨h, eq_iff_survive h⟩, ?_, hlookup, ?_⟩
  · rw [← eq_iff_all_survive hreports]
    constructor
    · intro heq
      rw [heq]
    · intro heq
      have hhistory : u.history = t.history := History.ext heq
      cases u
      cases t
      cases hpath
      cases hhistory
      rfl
  · intro lookupRule totals hsurvive
    exact Delta.apply_congr fun total htotal q hq ↦ hlookup q (hsurvive total htotal q hq)

section FirstSave

def emptyDisk : Disk := ⟨[], [], [], [], List.nodup_nil⟩

def emptyStore : StateFile := ⟨⟨"state.json"⟩, ⟨[], List.nodup_nil⟩⟩

/-- A report can be saved where there is nothing. -/
theorem save_first (r : Report Float) :
    ∃ e, (Store.save [r]).run (emptyStore, emptyDisk) =
      .ok () (⟨⟨"state.json"⟩, .ofReports [r]⟩, e) := by
  have hnew : emptyStore.history.additions [r] ≠ [] := List.cons_ne_nil _ _
  have hparent : (makeParent emptyStore.path).run emptyDisk = .ok () emptyDisk := rfl
  have hdraft : emptyDisk.Accepts (draftPath emptyStore.path) ["state.json.tmp"] := by
    refine ⟨?_, ?_, ?_⟩ <;> decide +kernel
  have hfile : emptyDisk.Accepts emptyStore.path ["state.json"] := by
    refine ⟨?_, ?_, ?_⟩ <;> decide +kernel
  obtain ⟨f, e, hwrite, hmove⟩ :=
    DiskOp.publishes_of_accepts (render (emptyStore.history.add [r]).reports) hdraft hfile
  have hreplace : (replace emptyStore.path (emptyStore.history.add [r]).reports).run emptyDisk =
      .ok () e := by
    rw [replace_run, hparent]
    dsimp only
    rw [hwrite]
    exact hmove
  refine ⟨e, ?_⟩
  rw [save_run (List.cons_ne_nil r []), if_neg hnew, hreplace]
  rfl

/-- A report whose cost is a sum of two amounts of two decimals. -/
def sumReport : Report Float :=
  .derived ⟨.gcp, "1", "disk", ""⟩ "" ⟨5, 4, 2016⟩ "" ⟨1.0, 0.01 + 0.2⟩

/-- The cost 0.21000000000000002 of `sumReport` is read as 0.21. -/
theorem reopened_iff_survive_sum :
    ∃ t e u, (Store.save [sumReport]).run (emptyStore, emptyDisk) = .ok () (t, e) ∧
      load t.path e = .ok u ∧ (∀ r ∈ t.history.reports, r.measures.IsFinite) ∧ u ≠ t := by
  obtain ⟨e, hsave⟩ := save_first sumReport
  have hfinite : ∀ r ∈ [sumReport], r.measures.IsFinite := by
    rw [List.forall_mem_singleton]
    constructor <;> decide +kernel
  have hcost : ¬ sumReport.measures.Survive := by
    intro h
    have hreread : reread sumReport.measures.cost = .ok 0.21 := by decide +kernel
    have hsurvives : reread sumReport.measures.cost = .ok sumReport.measures.cost := h.2
    rw [hreread] at hsurvives
    exact absurd hsurvives (by decide +kernel)
  have hnew : emptyStore.history.additions [sumReport] ≠ [] := List.cons_ne_nil _ _
  obtain ⟨u, hload, -, hsame, -⟩ := (reopened_iff_survive hsave).2.1 hnew hfinite
  refine ⟨_, e, u, hsave, hload, hfinite, fun heq ↦ ?_⟩
  exact hcost (hsame.mp heq sumReport (List.mem_singleton_self _))

end FirstSave

end StateFile

/-! ## Figures that stay finite -/

section Finite

variable {c : Configuration} {lookup : Lookup Float} {provider : Provider}
  {exports : List (List UInt8)} {reports : List (Report Float)}

/-- Whether a pipeline gives reports from finite recorded amounts and without any sum that
overflows. -/
def Pipeline.GivesFitting (reports : List (Report Float)) : Prop :=
  ∃ c lookup provider exports,
    (∀ q recorded, lookup q = .ok (some recorded) → recorded.IsFinite) ∧
    (run c lookup provider exports).outcome = .ok reports ∧ Fits c lookup provider exports

/-- The figures of a pipeline are finite exactly if no sum on the way to them overflows.  A state
file that they are saved to is opened again exactly if all figures in it are finite; so it always is
if none of the sums overflowed that its figures come from. -/
theorem finite_and_reopened_iff
    (hlookup : ∀ q recorded, lookup q = .ok (some recorded) → recorded.IsFinite)
    (houtcome : (Pipeline.run c lookup provider exports).outcome = .ok reports) :
    ((∀ r ∈ reports, r.measures.IsFinite) ↔ Pipeline.Fits c lookup provider exports) ∧
    ∀ fed path s d t e, StateFile.Grown fed path s d → fed reports →
      (Store.save reports).run (s, d) = .ok () (t, e) →
      ((∃ u, StateFile.load path e = .ok u) ↔ ∀ r ∈ t.history.reports, r.measures.IsFinite) ∧
      ((∀ batch, fed batch → Pipeline.GivesFitting batch) →
        ∃ u, StateFile.load path e = .ok u) := by
  refine ⟨Pipeline.isFinite_run_iff hlookup houtcome, fun fed path s d t e hs hfed hsave ↦ ?_⟩
  have ht : StateFile.Grown fed path t e := hs.saved hfed hsave
  have hreopened : (∃ u, StateFile.load path e = .ok u) ↔
      ∀ r ∈ t.history.reports, r.measures.IsFinite := by
    rw [← ht.path_eq]
    exact StateFile.load_ok_iff (ht.written (StateFile.ne_nil_of_save hsave))
  refine ⟨hreopened, fun hfits ↦ hreopened.mpr fun r hr ↦ ?_⟩
  obtain ⟨batch, hbatch, hmem⟩ := ht.exists_fed hr
  obtain ⟨c, lookup, provider, exports, hlookup, houtcome, hnone⟩ := hfits batch hbatch
  exact (Pipeline.isFinite_run_iff hlookup houtcome).mpr hnone r hmem

end Finite

section Overflow

/-- An export of three rows of one line, whose costs overflow on the way to their sum. -/
def overflowingExport : List UInt8 :=
  let padding := List.replicate 14 Table.Csv.comma ++ [Table.Csv.lineFeed]
  let row (cost : String) := Text.Utf8.encode ("disk,2016-04-05T00:00:00Z,1," ++ cost) ++ padding
  Text.Utf8.encode "Line Item,Start Time,Measurement1 Total Consumption,Cost" ++ padding ++
    row "1e308" ++ row "1e308" ++ row "-1e308"

def overflowingReport : Report Float :=
  .derived ⟨.gcp, "", "", ""⟩ "" ⟨5, 4, 2016⟩ "" ⟨3.0, 1.0 / 0.0⟩

theorem overflowingReport_outcome :
    (Pipeline.run { reference := .sixthOfApril } (fun _ ↦ .ok none) .gcp
      [overflowingExport]).outcome = .ok [overflowingReport] := by
  decide +kernel

/-- The state file of `overflowingReport` cannot be opened again. -/
theorem finite_and_reopened_iff_overflow :
    ¬ Pipeline.Fits { reference := .sixthOfApril } (fun _ ↦ .ok none) .gcp [overflowingExport] ∧
      ∃ t e, (Store.save [overflowingReport]).run (StateFile.emptyStore, StateFile.emptyDisk) =
          .ok () (t, e) ∧
        ¬ ∃ u, StateFile.load ⟨"state.json"⟩ e = .ok u := by
  have hcost : ¬ overflowingReport.measures.cost.isFinite := by decide +kernel
  have hlookup : ∀ q recorded,
      (fun _ ↦ .ok none : Lookup Float) q = .ok (some recorded) → recorded.IsFinite := nofun
  obtain ⟨hfits, hreopened⟩ := finite_and_reopened_iff hlookup overflowingReport_outcome
  constructor
  · intro hall
    exact hcost (hfits.mpr hall _ (List.mem_singleton_self _)).2
  · obtain ⟨e, hsave⟩ := StateFile.save_first overflowingReport
    have hgrown : StateFile.Grown (· = [overflowingReport]) ⟨"state.json"⟩ StateFile.emptyStore
        StateFile.emptyDisk :=
      .opened (by decide +kernel) rfl
    refine ⟨_, e, hsave, fun hload ↦ ?_⟩
    have hfinite := (hreopened _ _ _ _ _ _ hgrown rfl hsave).1.mp hload
    exact hcost (hfinite overflowingReport (List.mem_singleton_self _)).2

end Overflow

end CloudLedger
