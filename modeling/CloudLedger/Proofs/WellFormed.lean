import CloudLedger.Proofs.ArchivedTables
import CloudLedger.Proofs.DatesInCells
import CloudLedger.Proofs.Pipeline
import CloudLedger.Proofs.Reopening
import CloudLedger.Proofs.Timestamps
import CloudLedger.Proofs.Transcripts
import CloudLedger.Proofs.Trimming

/-!
# Well-formed reports

Every report of a pipeline names its account, service and unit without blanks around them, names one
of the two accounts of a line item, and is booked to a day that a calendar could have.  Line items
have all this whatever their amounts, so that it survives merging and the reduction of totals.

As no two reports of a pipeline have one identity, and every one has the identity of its own line
and day, a store that is fed by pipelines never holds two reports of one line on one day.
-/

namespace CloudLedger

/-! ## Line items -/

open Text

namespace Usage.Account

/-- Whether both the number and the name of an account are given. -/
def IsGiven (a : Account) : Prop := ¬ isBlankText a.number ∧ ¬ isBlankText a.name

/-- Whether a report is booked to an account. -/
def Names {α : Type} (a : Account) (r : Report α) : Prop :=
  r.line.account = trim a.number ∧ r.accountName = trim a.name

/-- The account below is chosen exactly if it is fully given. -/
theorem choose_eq (below above : Account) :
    (below.IsGiven ∧ choose below above = ⟨trim below.number, trim below.name⟩) ∨
      (¬ below.IsGiven ∧ choose below above = ⟨trim above.number, trim above.name⟩) := by
  unfold choose IsGiven
  by_cases hblank : (isBlankText below.number || isBlankText below.name) = true
  · right
    rw [if_pos hblank]
    simpa [imp_iff_not_or] using hblank
  · left
    rw [if_neg hblank]
    simpa using hblank

end Usage.Account

namespace Usage

open Calendar Table

/-! ## Days of line items -/

theorem exists_date_of_timestamp (today : Date) (cell : String) :
    ∃ date, periodOfTimestamp (.ofDate today) cell = .ofDate date :=
  (periodOfTimestamp_cases (.ofDate today) cell).elim (fun h ↦ ⟨today, h⟩) id

/-- What is known of the day that a provider's line items are booked to. -/
structure Dated (c : Configuration) (provider : Provider) (period : Period) : Prop where
  hasMonth : period.HasMonth
  hasDay : period.HasDay
  isDate : provider ≠ .azure → ∃ date, period.toDate? = some date
  period_eq : provider = .aws → period = c.bookingDay

theorem dated_ofDate {c : Configuration} {provider : Provider} (date : Date)
    (h : provider = .aws → Period.ofDate date = c.bookingDay) :
    Dated c provider (.ofDate date) where
  hasMonth := Period.hasMonth_ofDate date
  hasDay := Period.hasDay_ofDate date
  isDate _ := ⟨date, Period.toDate?_ofDate date⟩
  period_eq := h

theorem dated_periodOfCells (c : Configuration) (day month year : String) :
    Dated c .azure (periodOfCells c.today day month year) where
  hasMonth := hasMonth_periodOfCells (Period.hasMonth_ofDate c.reference.today) day month year
  hasDay := hasDay_periodOfCells (Period.hasDay_ofDate c.reference.today) day month year
  isDate hne := absurd rfl hne
  period_eq := nofun

end Usage

namespace Pipeline

open Usage Table

variable {α : Type} [Amount α] {c : Configuration} {lookup : Lookup α} {provider : Provider}
  {exports : List (List UInt8)} {reports : List (Report α)} {r : Report α}

/-! ## What line items have in common -/

variable (α) in
/-- The account below that a record names, and the one above it. -/
def sides (c : Configuration) : (provider : Provider) →
    Record (dialect c provider : Dialect α).Column → Usage.Account × Usage.Account
  | .aws => fun (record : Record Aws.Column) ↦
    (⟨record .linkedAccountId, record .linkedAccountName⟩,
      ⟨record .payerAccountId, record .payerAccountName⟩)
  | .azure => fun (record : Record Azure.Column) ↦
    (⟨record .subscriptionGuid, record .subscriptionName⟩,
      ⟨record .accountOwnerId, record .accountName⟩)
  | .gcp => fun (record : Record Gcp.Column) ↦
    (⟨record .projectNumber, record .projectId⟩, ⟨record .accountId, record .accountId⟩)

/-- A line item is booked to the chosen one of two accounts, with trimmed texts and to a day that
its provider could name. -/
theorem derived_of_report? {record : Record (dialect c provider : Dialect α).Column}
    (h : (dialect c provider).report? record = some r) :
    ∃ (account : Usage.Account) (service region : String) (period : Period) (unit : String)
        (measures : Measures α),
      account = .choose (sides α c provider record).1 (sides α c provider record).2 ∧
      Dated c provider period ∧
      r = .derived ⟨provider, account.number, trim service, region⟩ account.name period (trim unit)
        measures := by
  cases provider with
  | aws =>
    obtain ⟨date, hdate⟩ := c.exists_bookingDay
    have hdated : Dated c .aws c.bookingDay := hdate ▸ dated_ofDate date fun _ ↦ hdate.symm
    have hunit : trim "" = "" := rfl
    simp only [dialect, Aws.dialect, Aws.report?] at h
    split at h
    · obtain rfl := Option.some.inj h
      exact ⟨Aws.account record, record .productName, c.region, c.bookingDay, "",
        .ofCells (record .usageQuantity) (record .totalCost), rfl, hdated, by rw [hunit]⟩
    · cases h
  | azure =>
    simp only [dialect, Azure.dialect, Azure.report?] at h
    split at h
    · cases h
    · obtain rfl := Option.some.inj h
      exact ⟨_, _, _, _, _, _, rfl, dated_periodOfCells c _ _ _, rfl⟩
  | gcp =>
    simp only [dialect, Gcp.dialect, Gcp.report?] at h
    split at h
    · cases h
    · obtain rfl := Option.some.inj h
      obtain ⟨date, hdate⟩ := exists_date_of_timestamp c.reference.today (record .startTime)
      have hgcp : Provider.gcp ≠ .aws := by decide
      exact ⟨_, _, _, _, _, _, rfl, hdate ▸ dated_ofDate date fun haws ↦ absurd haws hgcp, rfl⟩

/-- What is true of every report of a pipeline. -/
structure WellFormed (c : Configuration) (provider : Provider) (exports : List (List UInt8))
    (r : Report α) : Prop where
  provider_eq : r.line.provider = provider
  isDerived : r.IsDerived
  dated : Dated c provider r.period
  isTrimmed : ∀ text ∈ [r.line.account, r.accountName, r.line.service, r.unit], IsTrimmed text
  /-- The number and the name of the account are those of one side of a line item of the report. -/
  oneSide : ∃ records ∈ (dialect c provider : Dialect α).accepted exports, ∃ record ∈ records,
    (∃ m, (dialect c provider).report? record = some { r with measures := m }) ∧
      (((sides α c provider record).1.IsGiven ∧ (sides α c provider record).1.Names r) ∨
        (¬ (sides α c provider record).1.IsGiven ∧ (sides α c provider record).2.Names r))

theorem WellFormed.of_measures (h : WellFormed c provider exports r) (m : Measures α) :
    WellFormed c provider exports { r with measures := m } :=
  ⟨h.provider_eq, h.isDerived, h.dated, h.isTrimmed, h.oneSide⟩

theorem wellFormed_of_lineItems :
    ∀ r ∈ (dialect c provider : Dialect α).lineItems exports, WellFormed c provider exports r := by
  intro r hr
  obtain ⟨records, hrecords, record, hrecord, hreport⟩ := mem_lineItems.mp hr
  obtain ⟨account, service, region, period, unit, measures, rfl, hdated, rfl⟩ :=
    derived_of_report? hreport
  rcases Usage.Account.choose_eq (sides α c provider record).1 (sides α c provider record).2 with
    ⟨hgiven, hchosen⟩ | ⟨hmissing, hchosen⟩
  · rw [hchosen] at hreport ⊢
    refine ⟨rfl, rfl, hdated, ?_, records, hrecords, record, hrecord, ⟨measures, hreport⟩,
      .inl ⟨hgiven, rfl, rfl⟩⟩
    simp [Report.derived, isTrimmed_trim]
  · rw [hchosen] at hreport ⊢
    refine ⟨rfl, rfl, hdated, ?_, records, hrecords, record, hrecord, ⟨measures, hreport⟩,
      .inr ⟨hmissing, rfl, rfl⟩⟩
    simp [Report.derived, isTrimmed_trim]

/-! ## Stores that are fed by pipelines -/

section Stores

open Files KeepsHistory

variable {σ : Type} [Store σ] [KeepsHistory σ] {s t : σ}

/-- What can become of an empty store to which only reports of pipelines are saved.  A save may
fail, and the store may be replaced by one whose reports differ in nothing but their figures, as
when it is read from a file. -/
inductive Fed : σ → Prop
  | empty {s : σ} : (history s).reports = [] → Fed s
  | saved {s t : σ} {d e : Disk} {c : Configuration} {lookup : Lookup Float} {provider : Provider}
      {exports : List (List UInt8)} {reports : List (Report Float)} :
      Fed s → (run c lookup provider exports).outcome = .ok reports →
      (Store.save reports).run (s, d) = .ok () (t, e) → Fed t
  | refused {s t : σ} {d e : Disk} {reports : List (Report Float)} {fault : Fault} :
      Fed s → (Store.save reports).run (s, d) = .error fault (t, e) → Fed t
  | reread {s t : σ} :
      Fed s → (history t).reports.map Report.bare = (history s).reports.map Report.bare → Fed t

theorem Fed.isDerived [RefusesCleanly σ] (h : Fed s) :
    ∀ r ∈ (history s).reports, r.IsDerived := by
  induction h with
  | empty hnone => simp [hnone]
  | saved _ hrun hsave ih =>
    intro r hr
    rw [save_ok hsave] at hr
    rcases History.mem_or_mem_of_mem_add hr with hold | hnew
    · exact ih r hold
    · exact (yields_of_run hrun r hnew).isDerived
  | refused _ hsave ih => rwa [RefusesCleanly.save_error hsave]
  | reread _ hsame ih =>
    intro r hr
    obtain ⟨r', hr', hbare⟩ := List.mem_map.mp (hsame ▸ List.mem_map_of_mem hr)
    have hderived : r'.bare.IsDerived := ih r' hr'
    rw [hbare] at hderived
    exact hderived

omit [Amount α] in
/-- Reports with the identities of their own lines and days are as distinct as these. -/
theorem nodup_of_isDerived {reports : List (Report α)} (hderived : ∀ r ∈ reports, r.IsDerived)
    (hids : (reports.map Report.id).Nodup) : (reports.map fun r ↦ (r.line, r.period)).Nodup := by
  have hmap : reports.map Report.id =
      (reports.map fun r ↦ (r.line, r.period)).map fun key ↦ Identity.ofLine key.1 key.2 := by
    rw [List.map_map]
    exact List.map_congr_left hderived
  rw [hmap] at hids
  exact hids.of_map _

/-- Opening the file of a store gives a store that was fed the same. -/
theorem Fed.of_load {s u : StateFile} {d : Disk} (h : Fed s) (hwritten : StateFile.Written s d)
    (hload : StateFile.load s.path d = .ok u) : Fed u := by
  obtain ⟨-, hreread⟩ := StateFile.reread_of_load hwritten hload
  apply h.reread
  change u.history.reports.map Report.bare = s.history.reports.map Report.bare
  rw [eq_comm, ← List.forall₂_eq_eq_eq, List.forall₂_map_left_iff, List.forall₂_map_right_iff]
  refine hreread.imp fun r v hv ↦ ?_
  obtain ⟨usage, cost, -, -, rfl⟩ := StateFile.rereadReport_eq_ok.mp hv
  rfl

end Stores

/-- Every report of a pipeline is well-formed, and no two have one identity.  A store that is fed by
pipelines, in memory or in a file that is opened again, never holds two reports of one line on one
day. -/
theorem wellFormed_of_run :
    (∀ (c : Configuration) (lookup : Lookup Float) (provider : Provider)
        (exports : List (List UInt8)) (reports : List (Report Float)),
      (run c lookup provider exports).outcome = .ok reports →
        (∀ r ∈ reports, WellFormed c provider exports r) ∧ (reports.map Report.id).Nodup) ∧
    (∀ {σ : Type} [Store σ] [KeepsHistory σ] [RefusesCleanly σ] (s : σ), Fed s →
      ((KeepsHistory.history s).reports.map fun r ↦ (r.line, r.period)).Nodup) ∧
    ∀ (s u : StateFile) (d : Files.Disk), Fed s → StateFile.Written s d →
      StateFile.load s.path d = .ok u → Fed u := by
  refine ⟨fun c lookup provider exports reports hrun ↦ ⟨?_, nodup_ids_of_run hrun⟩,
    fun s hfed ↦ nodup_of_isDerived hfed.isDerived (KeepsHistory.history s).distinct,
    fun s u d hfed hwritten hload ↦ hfed.of_load hwritten hload⟩
  exact forall_mem_run (fun r m hr ↦ hr.of_measures m) wellFormed_of_lineItems hrun

/-! ## A bill with blanks -/

section Blanks

def blankBill : List (List UInt8) := [itemExport " PayerLineItem, EC2 ,\t1 ,10,2"]

def blankReport : Report Float :=
  .derived ⟨.aws, "1", "EC2", ""⟩ "" ⟨5, 4, 2016⟩ "" ⟨10, 2⟩

/-- A bill is saved to a state file; the file is opened again and still holds no line twice. -/
theorem wellFormed_of_run_blanks :
    (∀ r ∈ [blankReport], WellFormed { reference := .sixthOfApril } .aws blankBill r) ∧
      ∃ s u e, (Store.save [blankReport]).run (StateFile.emptyStore, StateFile.emptyDisk) =
          .ok () (s, e) ∧
        StateFile.load s.path e = .ok u ∧
        (u.history.reports.map fun r ↦ (r.line, r.period)).Nodup := by
  obtain ⟨hruns, hstores, hopened⟩ := wellFormed_of_run
  have hrun : (run { reference := .sixthOfApril } (fun _ ↦ .ok none) .aws blankBill).outcome =
      .ok [blankReport] := by
    decide +kernel
  obtain ⟨e, hsave⟩ := StateFile.save_first blankReport
  have hfed := (Fed.empty (s := StateFile.emptyStore) rfl).saved hrun hsave
  have hwritten := StateFile.written_of_save hsave (List.cons_ne_nil _ _)
  have hfinite : ∀ r ∈ [blankReport], r.measures.IsFinite := by
    rw [List.forall_mem_singleton]
    constructor <;> decide +kernel
  obtain ⟨u, hload⟩ := (StateFile.load_ok_iff hwritten).mpr hfinite
  have hreopened : Fed u := hopened _ u e hfed hwritten hload
  exact ⟨(hruns _ _ _ _ _ hrun).1, _, u, e, hsave, hload, hstores u hreopened⟩

end Blanks

end Pipeline

end CloudLedger
