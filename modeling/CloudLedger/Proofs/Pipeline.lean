import CloudLedger.Pipeline
import CloudLedger.Proofs.Delta
import CloudLedger.Proofs.Merging

/-!
# What pipelines yield

Every report of a pipeline has the provider's tag and the identity of its own line and day, and no
two have the same one; running totals are all booked to one day.  Exports are gathered in order, and
what the pipeline of a provider without running totals yields needs no look-up.
-/

namespace CloudLedger

variable {α : Type}

/-- Whether a report has the identity of its own line and day. -/
def Report.IsDerived (r : Report α) : Prop := r.id = Identity.ofLine r.line r.period

theorem Configuration.exists_bookingDay (c : Configuration) :
    ∃ date, c.bookingDay = .ofDate date := by
  unfold bookingDay
  split
  · exact ⟨_, rfl⟩
  · exact ⟨_, rfl⟩

namespace Usage.Dialect

open Table

/-- The records of an export. -/
def recordsOf (d : Dialect α) (bytes : List UInt8) : Except Fault (List (Record d.Column)) := do
  let rows ← (RowStream.ofBytes bytes).clean d.width
  @records d.Column d.columns d.provider rows

/-- The records of each export that can be read, export by export. -/
def accepted (d : Dialect α) (exports : List (List UInt8)) : List (List (Record d.Column)) :=
  exports.filterMap fun bytes ↦ (d.recordsOf bytes).toOption

/-- The reports of all rows that are line items, export by export and row by row. -/
def lineItems (d : Dialect α) (exports : List (List UInt8)) : List (Report α) :=
  (d.accepted exports).flatMap d.reports

end Usage.Dialect

namespace Pipeline

open Usage

variable {c : Configuration} {provider : Provider} {exports : List (List UInt8)}
  {raw reports : List (Report α)} {r : Report α}

/-! ## From exports to line items -/

theorem ofExport_eq (d : Dialect α) (bytes : List UInt8) :
    d.ofExport bytes = d.reports <$> d.recordsOf bytes := by
  unfold Dialect.ofExport Dialect.recordsOf
  cases (Table.RowStream.ofBytes bytes).clean d.width <;> rfl

theorem filterMap_ofExport (d : Dialect α) (exports : List (List UInt8)) :
    (exports.map d.ofExport).filterMap Except.toOption = (d.accepted exports).map d.reports := by
  rw [List.filterMap_map, Dialect.accepted, List.map_filterMap]
  apply List.filterMap_congr
  intro bytes _
  rw [Function.comp_apply, ofExport_eq]
  cases d.recordsOf bytes <;> rfl

/-- What is gathered are the line items of the accepted exports; only of daily exports may some not
be accepted. -/
theorem gather_eq_ok {d : Dialect α} (h : gather d exports = .ok raw) :
    raw = d.lineItems exports ∧
      (¬ d.provider.exportsDaily →
        ∀ bytes ∈ exports, ∃ records, d.recordsOf bytes = .ok records) := by
  unfold gather at h
  split_ifs at h with hnone hdaily
  · refine ⟨?_, fun hnot ↦ absurd hdaily hnot⟩
    unfold gatherDaily at h
    dsimp only at h
    rw [filterMap_ofExport] at h
    split at h
    · cases h
    · rw [← Except.ok.inj h, Dialect.lineItems, List.flatMap_def]
  · obtain ⟨days, hdays, rfl⟩ := map_eq_ok.mp h
    refine ⟨?_, fun _ bytes hbytes ↦ ?_⟩
    · rw [eq_filterMap_of_mapM hdays, filterMap_ofExport, Dialect.lineItems, List.flatMap_def]
    · obtain ⟨day, hday⟩ := mapM_ok_iff.mp ⟨days, hdays⟩ bytes hbytes
      rw [ofExport_eq] at hday
      obtain ⟨records, hrecords, -⟩ := map_eq_ok.mp hday
      exact ⟨records, hrecords⟩

theorem mem_lineItems {d : Dialect α} : r ∈ d.lineItems exports ↔
    ∃ records ∈ d.accepted exports, ∃ record ∈ records, d.report? record = some r := by
  simp only [Dialect.lineItems, Dialect.reports, List.mem_flatMap, List.mem_filterMap]

/-- Every gathered report is the report of a record. -/
theorem mem_of_gather {d : Dialect α} (h : gather d exports = .ok raw) (hr : r ∈ raw) :
    ∃ record, d.report? record = some r :=
  have ⟨_, _, record, _, hrecord⟩ := mem_lineItems.mp ((gather_eq_ok h).1 ▸ hr)
  ⟨record, hrecord⟩

variable [Amount α]

/-- What all reports of a provider have in common. -/
structure Yields (c : Configuration) (provider : Provider) (r : Report α) : Prop where
  isDerived : r.IsDerived
  provider_eq : r.line.provider = provider
  period_eq : provider = .aws → r.period = c.bookingDay

theorem yields_of_report? {record : Table.Record (dialect (α := α) c provider).Column}
    (h : (dialect c provider).report? record = some r) : Yields c provider r := by
  cases provider with
  | aws =>
    simp only [dialect, Aws.dialect, Aws.report?] at h
    split at h
    · obtain rfl := Option.some.inj h
      exact ⟨rfl, rfl, fun _ ↦ rfl⟩
    · cases h
  | azure =>
    simp only [dialect, Azure.dialect, Azure.report?] at h
    split at h
    · cases h
    · obtain rfl := Option.some.inj h
      exact ⟨rfl, rfl, nofun⟩
  | gcp =>
    simp only [dialect, Gcp.dialect, Gcp.report?] at h
    split at h
    · cases h
    · obtain rfl := Option.some.inj h
      exact ⟨rfl, rfl, nofun⟩

/-- What holds of all line items whatever their measures holds of all totals. -/
theorem forall_mem_totals {P : Report α → Prop}
    (hmeasures : ∀ (r : Report α) (m : Measures α), P r → P { r with measures := m })
    (hitems : ∀ r ∈ (dialect c provider : Dialect α).lineItems exports, P r)
    (h : totals c provider exports = .ok reports) : ∀ r ∈ reports, P r := by
  obtain ⟨raw, hraw, rfl⟩ := map_eq_ok.mp h
  rw [← (gather_eq_ok hraw).1] at hitems
  exact forall_mem_mergeByIdentity hmeasures hitems

theorem yields_of_lineItems :
    ∀ r ∈ (dialect c provider : Dialect α).lineItems exports, Yields c provider r := by
  intro r hr
  obtain ⟨_, -, record, -, hrecord⟩ := mem_lineItems.mp hr
  exact yields_of_report? hrecord

omit [Amount α] in
theorem Yields.of_measures (h : Yields c provider r) (m : Measures α) :
    Yields c provider { r with measures := m } :=
  ⟨h.isDerived, h.provider_eq, h.period_eq⟩

theorem yields_of_totals (h : totals c provider exports = .ok reports) :
    ∀ r ∈ reports, Yields c provider r :=
  forall_mem_totals (fun _ m hr ↦ hr.of_measures m) yields_of_lineItems h

theorem nodup_ids_of_totals (h : totals c provider exports = .ok reports) :
    (reports.map Report.id).Nodup := by
  obtain ⟨raw, -, rfl⟩ := map_eq_ok.mp h
  exact nodup_ids_mergeByIdentity raw

variable {lookup : Lookup α}

/-- A pipeline's reports are its totals, each with what has been recorded taken off where the
provider gives running totals. -/
theorem run_eq_ok (h : (run c lookup provider exports).outcome = .ok reports) :
    ∃ whole, totals c provider exports = .ok whole ∧
      if provider.givesTotals then
        List.Forall₂ (Delta.Adjusts lookup c.lookupRule) whole reports
      else reports = whole := by
  unfold run at h
  split at h
  · cases h
  · rename_i whole hwhole
    refine ⟨whole, hwhole, ?_⟩
    split at h
    · rename_i htotals
      rw [if_pos htotals]
      exact Delta.outcome_apply_eq_ok.mp h
    · rename_i htotals
      rw [if_neg htotals]
      exact (Except.ok.inj h).symm

/-- What holds of all line items whatever their measures holds of all reports of a pipeline. -/
theorem forall_mem_run {P : Report α → Prop}
    (hmeasures : ∀ (r : Report α) (m : Measures α), P r → P { r with measures := m })
    (hitems : ∀ r ∈ (dialect c provider : Dialect α).lineItems exports, P r)
    (h : (run c lookup provider exports).outcome = .ok reports) : ∀ r ∈ reports, P r := by
  obtain ⟨whole, hwhole, hreports⟩ := run_eq_ok h
  have htotals := forall_mem_totals hmeasures hitems hwhole
  split at hreports
  · intro r hr
    obtain ⟨i, hi, rfl⟩ := List.getElem_of_mem hr
    have hlength := hreports.length_eq
    have hadjusts := hreports.get (by omega) hi
    rw [List.get_eq_getElem, List.get_eq_getElem] at hadjusts
    rw [hadjusts.eq]
    exact hmeasures _ _ (htotals _ (List.getElem_mem (by omega : i < whole.length)))
  · rw [hreports]
    exact htotals

/-- Whatever is looked up, every report of a pipeline is of its provider and identified by its own
line and day. -/
theorem yields_of_run (h : (run c lookup provider exports).outcome = .ok reports) :
    ∀ r ∈ reports, Yields c provider r :=
  forall_mem_run (fun _ m hr ↦ hr.of_measures m) yields_of_lineItems h

/-- Nothing that is taken off changes the identity of a report. -/
theorem ids_of_run (h : (run c lookup provider exports).outcome = .ok reports) :
    ∃ whole : List (Report α), totals c provider exports = .ok whole ∧
      whole.map Report.id = reports.map Report.id := by
  obtain ⟨whole, hwhole, hreports⟩ := run_eq_ok h
  refine ⟨whole, hwhole, ?_⟩
  split at hreports
  · rw [← List.forall₂_eq_eq_eq, List.forall₂_map_left_iff, List.forall₂_map_right_iff]
    exact hreports.imp fun r s hadjusts ↦ by rw [hadjusts.eq]
  · rw [hreports]

theorem nodup_ids_of_run (h : (run c lookup provider exports).outcome = .ok reports) :
    (reports.map Report.id).Nodup := by
  obtain ⟨whole, hwhole, hids⟩ := ids_of_run h
  exact hids ▸ nodup_ids_of_totals hwhole

variable {lookup' : Lookup α} {s : Report α} {q : Query}

omit [Amount α] in
/-- A question about a running total covers nothing that the same batch yields. -/
theorem not_covers_of_yields (hr : Yields c .aws r) (hs : Yields c provider s)
    (hq : Delta.query? c.lookupRule r = .ok (some q)) : ¬ q.covers s := by
  intro hcovers
  obtain ⟨date, hdate⟩ := c.exists_bookingDay
  have hrday := hr.period_eq rfl
  obtain ⟨hline, -, hlt⟩ := (Delta.covers_of_date (hrday.trans hdate) hq).mp hcovers
  have hprovider : provider = .aws := by rw [← hs.provider_eq, hline, hr.provider_eq]
  rw [hs.period_eq hprovider, hrday, UInt32.lt_iff_toNat_lt] at hlt
  omega

/-- Only what is asked about running totals matters. -/
theorem run_congr
    (h : ∀ (r : Report α) q, Yields c .aws r → Delta.query? c.lookupRule r = .ok (some q) →
      lookup q = lookup' q) :
    run c lookup provider exports = run c lookup' provider exports := by
  unfold run
  cases hwhole : (totals c provider exports : Except Fault (List (Report α))) with
  | error fault => rfl
  | ok reports =>
    dsimp only
    by_cases htotals : provider.givesTotals
    · have hp : provider = .aws := by
        cases provider with
        | aws => rfl
        | azure => cases htotals
        | gcp => cases htotals
      subst hp
      rw [if_pos htotals, if_pos htotals]
      apply Delta.apply_congr
      intro r hr q hq
      exact h r q (yields_of_totals hwhole r hr) hq
    · rw [if_neg htotals, if_neg htotals]

end Pipeline

/-! ## An export and its day -/

/-- An export of one line item. -/
def itemExport (item : String) : List UInt8 :=
  let padding := List.replicate 24 Table.Csv.comma ++ [Table.Csv.lineFeed]
  Text.Utf8.encode "RecordType,ProductName,PayerAccountId,UsageQuantity,TotalCost" ++ padding ++
    Text.Utf8.encode item ++ padding

def Calendar.Reference.sixthOfApril : Reference where
  zone := .steady "UTC" 0
  instant := 1459900800
  today := ⟨2016, 4, 6, by decide⟩
  yesterday := ⟨2016, 4, 5, by decide⟩
  today_eq := by decide
  yesterday_eq := by decide

end CloudLedger
