import CloudLedger.Proofs.ExactAmount
import CloudLedger.Proofs.Identity
import CloudLedger.Proofs.Pipeline
import Mathlib.Data.Set.Function

/-!
# Line items and the reports that they go into

Every line item of the accepted exports goes into exactly one report of its pipeline, the one with
its identity; the report is the first of these line items with the amounts of the others added to
it.  Line items of one identity are of one day, and the texts that name their account, service and
region agree as they are joined for the digest.  The texts themselves may differ if they hold the
separator that they are joined with.
-/

namespace CloudLedger.Pipeline

open Usage

variable {α : Type} [Amount α] {c : Configuration} {lookup : Lookup α} {provider : Provider}
  {exports : List (List UInt8)} {reports : List (Report α)} {r s : Report α}

theorem dialect_provider (c : Configuration) (provider : Provider) :
    (dialect c provider : Dialect α).provider = provider := by
  cases provider <;> rfl

/-- The line items of a provider's exports. -/
def items (c : Configuration) (provider : Provider) (exports : List (List UInt8)) :
    List (Report α) :=
  (dialect c provider).lineItems exports

theorem totals_eq_ok {whole : List (Report α)} (h : totals c provider exports = .ok whole) :
    whole = mergeByIdentity (items c provider exports) := by
  obtain ⟨raw, hraw, rfl⟩ := map_eq_ok.mp h
  rw [(gather_eq_ok hraw).1, items]

/-- The line items are joined by identity, in the order of first appearance and from left to right;
none is lost and none counts twice.  Running totals are reduced only after that. -/
theorem run_joins_items (h : (run c lookup provider exports).outcome = .ok reports) :
    let rows : List (Report α) := items c provider exports
    (provider ≠ .gcp → ∀ bytes ∈ exports, ∃ records,
      (dialect c provider : Dialect α).recordsOf bytes = .ok records) ∧
    ∃ whole : List (Report α),
      whole.map Report.id = (rows.map Report.id).eraseDups ∧
      (∀ s ∈ whole, ∃ first rest, groupOf s.id rows = first :: rest ∧
        s = { first with
          measures := rest.foldl (fun total r ↦ total + r.measures) first.measures }) ∧
      (whole.flatMap fun s ↦ groupOf s.id rows).Perm rows ∧
      (∀ {G : Type} [AddCommMonoid G] (value : Measures α → G),
        (∀ m n, value (m + n) = value m + value n) →
          (whole.map fun s ↦ value s.measures).sum = (rows.map fun r ↦ value r.measures).sum) ∧
      if provider = .aws then run c lookup provider exports = Delta.apply lookup c.lookupRule whole
      else reports = whole := by
  intro rows
  obtain ⟨whole, hwhole, hreports⟩ := run_eq_ok h
  have hmerged := totals_eq_ok hwhole
  obtain ⟨raw, hraw, -⟩ := map_eq_ok.mp hwhole
  refine ⟨fun hp bytes hbytes ↦ ?_, whole, ?_, ?_, ?_, ?_, ?_⟩
  · refine (gather_eq_ok hraw).2 ?_ bytes hbytes
    rw [dialect_provider, Provider.exportsDaily]
    simpa using hp
  · rw [hmerged, ids_mergeByIdentity]
  · intro s hs
    exact mem_mergeByIdentity.mp (hmerged ▸ hs)
  · rw [hmerged]
    exact groups_perm _
  · intro G _ value hadd
    rw [hmerged]
    exact sum_mergeByIdentity hadd _
  · by_cases hp : provider = .aws
    · rw [if_pos hp, run, hwhole, hp]
      rfl
    · have htotals : ¬ provider.givesTotals := by simpa [Provider.givesTotals] using hp
      rw [if_neg hp]
      rwa [if_neg htotals] at hreports

/-! ### Two days of exports, and one that cannot be read -/

section Days

def dayExport (rows : List String) : List UInt8 :=
  let padding := List.replicate 13 Table.Csv.comma ++ [Table.Csv.lineFeed]
  ("Line Item,Start Time,Measurement1 Total Consumption,Cost,Description" :: rows).flatMap
    fun row ↦ Text.Utf8.encode row ++ padding

def dayExports : List (List UInt8) :=
  [dayExport ["disk,2016-04-05T00:00:00Z,1,0.5,a", "net,2016-04-05T00:00:00Z,2,0.25,b"],
    Text.Utf8.encode "no table", dayExport ["disk,2016-04-05T00:00:00Z,3,1.5,a"]]

theorem dayExports_measures :
    (List.map Report.measures <$>
      (run { reference := .sixthOfApril } (fun _ ↦ .ok none) .gcp dayExports).outcome :
        Except Fault (List (Measures ℚ))) = .ok [⟨4, 2⟩, ⟨2, 1 / 4⟩] := by
  decide +kernel

/-- Three line items of two services make two reports, and both usages and costs add up. -/
theorem run_joins_items_days :
    let rows : List (Report ℚ) := items { reference := .sixthOfApril } .gcp dayExports
    ∃ reports, (run { reference := .sixthOfApril } (fun _ ↦ .ok none) .gcp dayExports).outcome =
        .ok reports ∧
      reports.map Report.measures = [⟨4, 2⟩, ⟨2, 1 / 4⟩] ∧
      reports.map Report.id = (rows.map Report.id).eraseDups ∧
      (reports.flatMap fun s ↦ groupOf s.id rows).Perm rows ∧
      (reports.map Report.measures).sum = (rows.map Report.measures).sum := by
  intro rows
  obtain ⟨reports, houtcome, hmeasures⟩ := map_eq_ok.mp dayExports_measures
  obtain ⟨-, whole, hids, -, hperm, hsum, hwhole⟩ := run_joins_items houtcome
  obtain rfl : reports = whole := hwhole
  exact ⟨reports, houtcome, hmeasures, hids, hperm, hsum id fun _ _ ↦ rfl⟩

end Days

/-! ## Line items that are joined -/

/-- Every line item goes into a report. -/
theorem exists_report_of_items (h : (run c lookup provider exports).outcome = .ok reports)
    (hr : r ∈ items c provider exports) :
    ∃ t ∈ reports, r ∈ groupOf t.id (items c provider exports) := by
  obtain ⟨whole, hwhole, hids⟩ := ids_of_run h
  have hid : r.id ∈ reports.map Report.id := by
    rw [← hids, totals_eq_ok hwhole, mem_ids_mergeByIdentity]
    exact List.mem_map_of_mem hr
  obtain ⟨t, ht, heq⟩ := List.mem_map.mp hid
  exact ⟨t, ht, mem_groupOf.mpr ⟨hr, heq.symm⟩⟩

/-- Whether two of some line items go into the same report. -/
def Meet (rows reports : List (Report α)) (r s : Report α) : Prop :=
  ∃ t ∈ reports, r ∈ groupOf t.id rows ∧ s ∈ groupOf t.id rows

/-- Two line items go into the same report exactly if they are of the same day and their accounts,
services and regions are the same text once separators stand between them.  Where none of these
texts holds a separator itself, the line items are of the same line.  No two of the byte strings
that are digested may share a digest. -/
theorem meet_iff_joined_eq (h : (run c lookup provider exports).outcome = .ok reports)
    (hdigests : Set.InjOn Digest.Sha256.hexDigest
      {bytes | ∃ r ∈ (items c provider exports : List (Report α)),
        bytes = Identity.preimage r.line r.period})
    (hr : r ∈ items c provider exports) (hs : s ∈ items c provider exports) :
    (Meet (items c provider exports) reports r s ↔
      r.period = s.period ∧ r.line.joined = s.line.joined) ∧
    (Meet (items c provider exports) reports r s → r.line.IsPlain → s.line.IsPlain →
      r.period = s.period ∧ r.line = s.line) := by
  have hyields := yields_of_lineItems r hr
  have hother := yields_of_lineItems s hs
  have hprovider : r.line.provider = s.line.provider :=
    hyields.provider_eq.trans hother.provider_eq.symm
  have hmeet : Meet (items c provider exports) reports r s ↔
      r.period = s.period ∧ r.line.joined = s.line.joined := by
    constructor
    · rintro ⟨t, -, hrt, hst⟩
      have hid : r.id = s.id := (mem_groupOf.mp hrt).2.trans (mem_groupOf.mp hst).2.symm
      rw [hyields.isDerived, hother.isDerived] at hid
      have hbytes := hdigests ⟨r, hr, rfl⟩ ⟨s, hs, rfl⟩ (congrArg Identity.digest hid)
      exact (Identity.preimage_eq_iff.mp hbytes).2
    · rintro ⟨hperiod, hjoined⟩
      obtain ⟨t, ht, hrt⟩ := exists_report_of_items h hr
      have hbytes := Identity.preimage_eq_iff.mpr ⟨hprovider, hperiod, hjoined⟩
      have hid : s.id = r.id := by
        rw [hyields.isDerived, hother.isDerived, Identity.ofLine, Identity.ofLine, hbytes]
      exact ⟨t, ht, hrt, mem_groupOf.mpr ⟨hs, hid.trans (mem_groupOf.mp hrt).2⟩⟩
  refine ⟨hmeet, fun htogether hplain hsplain ↦ ?_⟩
  obtain ⟨hperiod, hjoined⟩ := hmeet.mp htogether
  exact ⟨hperiod, Line.eq_of_joined hplain hsplain hprovider hjoined⟩

/-! ### Two lines whose texts hold separators -/

section Separators

/-- An export of two line items, whose subscriptions and services hold separators. -/
def separatedExport : List UInt8 :=
  let padding := List.replicate 23 Table.Csv.comma ++ [Table.Csv.lineFeed]
  ["Subscription Name,SubscriptionGuid,Consumed Service,Day,Month,Year,Consumed Quantity,ExtendedCost",
    "n,a\x1Fb,c,5,4,2016,1,10", "n,a,b\x1Fc,5,4,2016,2,20"].flatMap
    fun row ↦ Text.Utf8.encode row ++ padding

theorem separatedExport_measures :
    (List.map Report.measures <$>
      (run { reference := .sixthOfApril } (fun _ ↦ .ok none) .azure [separatedExport]).outcome :
        Except Fault (List (Measures Float))) = .ok [⟨3, 30⟩] := by
  decide +kernel

def separatedLines : List (Line × Period) :=
  [(⟨.azure, "a\x1Fb", "c", ""⟩, ⟨5, 4, 2016⟩), (⟨.azure, "a", "b\x1Fc", ""⟩, ⟨5, 4, 2016⟩)]

theorem separatedExport_lines :
    (items { reference := .sixthOfApril } .azure [separatedExport] : List (Report Float)).map
      (fun r ↦ (r.line, r.period)) = separatedLines := by
  decide +kernel

/-- Two line items of different accounts go into one report. -/
theorem meet_iff_joined_eq_separated :
    ∃ (reports : List (Report Float)) (r s : Report Float),
      (run { reference := .sixthOfApril } (fun _ ↦ .ok none) .azure [separatedExport]).outcome =
        .ok reports ∧
      reports.map Report.measures = [⟨3, 30⟩] ∧
      items { reference := .sixthOfApril } .azure [separatedExport] = [r, s] ∧
      r.line.account ≠ s.line.account ∧
      Meet (items { reference := .sixthOfApril } .azure [separatedExport]) reports r s := by
  obtain ⟨reports, houtcome, hmeasures⟩ := map_eq_ok.mp separatedExport_measures
  have hlines := separatedExport_lines
  rw [separatedLines, List.map_eq_cons_iff] at hlines
  obtain ⟨r, _, hrows, hr, hrest⟩ := hlines
  obtain ⟨s, _, rfl, hs, hnil⟩ := List.map_eq_cons_iff.mp hrest
  obtain rfl := List.map_eq_nil_iff.mp hnil
  obtain ⟨hrline, hrperiod⟩ := Prod.mk.inj hr
  obtain ⟨hsline, hsperiod⟩ := Prod.mk.inj hs
  have hperiod : r.period = s.period := hrperiod.trans hsperiod.symm
  have hjoined : r.line.joined = s.line.joined := by
    rw [hrline, hsline]
    decide +kernel
  have hbytes : Identity.preimage r.line r.period = Identity.preimage s.line s.period :=
    Identity.preimage_eq_iff.mpr ⟨by rw [hrline, hsline], hperiod, hjoined⟩
  -- both line items are digested from the same bytes
  have hdigests : Set.InjOn Digest.Sha256.hexDigest
      {bytes | ∃ r ∈ (items { reference := .sixthOfApril } .azure [separatedExport] :
        List (Report Float)), bytes = Identity.preimage r.line r.period} := by
    rw [hrows]
    rintro _ ⟨t, ht, rfl⟩ _ ⟨u, hu, rfl⟩ -
    simp only [List.mem_cons, List.not_mem_nil, or_false] at ht hu
    rcases ht with rfl | rfl <;> rcases hu with rfl | rfl <;> simp [hbytes]
  have hmeet := meet_iff_joined_eq houtcome hdigests (hrows ▸ List.mem_cons_self)
    (hrows ▸ List.mem_cons_of_mem r List.mem_cons_self)
  refine ⟨reports, r, s, houtcome, hmeasures, hrows, ?_, hmeet.1.mpr ⟨hperiod, hjoined⟩⟩
  rw [hrline, hsline]
  decide

end Separators

end CloudLedger.Pipeline
