import CloudLedger.Proofs.History
import CloudLedger.Proofs.Pipeline
import Mathlib.Data.Set.Function

/-!
# Daily amounts add up to the running total

A provider that gives running totals is run on some days of a month, and whatever else is saved in
between, the history keeps one report of a line for every run that lists it: the running total less
the running total of the run before.  The reports of the line then sum to the last running total.
No two tuples that occur may share a digest, and amounts are exact.
-/

namespace CloudLedger

variable {α : Type}

/-- A run over running totals: the configuration and the exports that it was given. -/
structure TotalsRun where
  configuration : Configuration
  exports : List (List UInt8)

/-- What an identity is a digest of. -/
def Report.key (r : Report α) : Line × Period := (r.line, r.period)

/-- Whether a report is one of a line in a month. -/
def Report.isOf (line : Line) (month : Period) (r : Report α) : Bool :=
  r.line = line && r.period.sharesMonth month

theorem Report.isOf_iff {line : Line} {month : Period} {r : Report α} :
    r.isOf line month ↔ r.line = line ∧ r.period.sharesMonth month := by
  simp [isOf]

/-- What a history keeps for a line in a month, in the order of saving. -/
def History.kept (h : History α) (line : Line) (month : Period) : List (Report α) :=
  h.reports.filter (Report.isOf line month)

/-- Every day of a month stands for it. -/
theorem History.kept_eq_of_sharesMonth (h : History α) (line : Line) {day month : Period}
    (hmonth : day.sharesMonth month) : h.kept line day = h.kept line month := by
  apply List.filter_congr
  intro r _
  rw [Bool.eq_iff_iff, Report.isOf_iff, Report.isOf_iff]
  have hmonth' : month.sharesMonth day := Period.sharesMonth_comm _ _ ▸ hmonth
  exact and_congr_right fun _ ↦
    ⟨fun hday ↦ Period.sharesMonth_trans hday hmonth,
      fun hmonth ↦ Period.sharesMonth_trans hmonth hmonth'⟩

/-- The day and the measures of a report. -/
def Report.daily (r : Report α) : Period × Measures α := (r.period, r.measures)

namespace TotalsRun

/-- The day that a run is booked to. -/
def day (run : TotalsRun) : Period := run.configuration.bookingDay

theorem exists_day (run : TotalsRun) : ∃ date, run.day = .ofDate date :=
  run.configuration.exists_bookingDay

variable [Amount α]

/-- The merged reports of a run, before anything is taken off. -/
def totals (run : TotalsRun) : Except Fault (List (Report α)) :=
  Pipeline.totals run.configuration .aws run.exports

/-- The running total that a run gives for a line, if it lists the line. -/
def total? (run : TotalsRun) (line : Line) : Option (Measures α) :=
  match (run.totals : Except Fault (List (Report α))) with
  | .ok whole => (whole.find? fun r ↦ r.line = line).map Report.measures
  | .error _ => none

/-- The outcome of a run on a history. -/
def outcome (run : TotalsRun) (h : History α) : Except Fault (List (Report α)) :=
  (Pipeline.run run.configuration h.lookup .aws run.exports).outcome

/-- The last running total of a line that some runs give, the latest run first. -/
def latestTotal (line : Line) : List TotalsRun → Measures α
  | [] => 0
  | run :: earlier => (run.total? line).getD (latestTotal line earlier)

/-- The days on which some runs list a line, the latest run first, each with the running total less
the one before. -/
def increments (line : Line) : List TotalsRun → List (Period × Measures α)
  | [] => []
  | run :: earlier =>
    increments line earlier ++
      ((run.total? line).map fun total ↦ (run.day, total - latestTotal line earlier)).toList

end TotalsRun

/-- How a history comes about while a line is counted through a month: whatever does not belong to
the line in that month may be saved at any time, and the runs, the latest first, are of later and
later days of the month. -/
inductive Course [Amount α] (line : Line) (month : Period) (keys : Set (Line × Period))
    (start : History α) : List TotalsRun → History α → Prop
  | start : Course line month keys start [] start
  | save {runs : List TotalsRun} {h : History α} {reports : List (Report α)} :
    Course line month keys start runs h →
    (∀ r ∈ reports, r.IsDerived ∧ r.key ∈ keys ∧ ¬ r.isOf line month) →
    Course line month keys start runs (h.add reports)
  | run {runs : List TotalsRun} {h : History α} {run : TotalsRun} {reports : List (Report α)} :
    Course line month keys start runs h →
    run.day.sharesMonth month →
    (∀ earlier ∈ runs, earlier.day.day < run.day.day) →
    run.outcome h = .ok reports →
    (∀ r ∈ reports, r.key ∈ keys) →
    Course line month keys start (run :: runs) (h.add reports)

/-! ## One run -/

section Run

variable {line : Line} {month : Period} {keys : Set (Line × Period)} {h : History α}
  {reports whole : List (Report α)} {r s : Report α} {run : TotalsRun}

/-- Reports whose identities are distinct hold a line at most once, if they are all of one day. -/
theorem filter_line_eq (hnodup : (reports.map Report.id).Nodup)
    (hid : ∀ r ∈ reports, r.id = Identity.ofLine r.line run.day) :
    reports.filter (fun r ↦ r.line = line) = (reports.find? fun r ↦ r.line = line).toList := by
  induction reports with
  | nil => rfl
  | cons first rest ih =>
    rw [List.map_cons, List.nodup_cons] at hnodup
    have hrest := fun r hr ↦ hid r (List.mem_cons_of_mem first hr)
    by_cases hline : first.line = line
    · have hnone : rest.filter (fun r ↦ r.line = line) = [] := by
        rw [List.filter_eq_nil_iff]
        intro r hr heq
        have hsame : r.line = first.line := by simpa [hline] using heq
        apply hnodup.1
        rw [hid first List.mem_cons_self, ← hsame, ← hrest r hr]
        exact List.mem_map_of_mem hr
      simp [hline, hnone]
    · simp [hline, ih hnodup.2 hrest]

theorem find?_line_of_forall₂ (line : Line) {R : Report α → Report α → Prop}
    (hline : ∀ r s, R r s → s.line = r.line) (hall : List.Forall₂ R whole reports) :
    Option.Rel R (whole.find? fun r ↦ r.line = line) (reports.find? fun r ↦ r.line = line) := by
  induction hall with
  | nil => exact .none
  | @cons r s whole reports hrs _ ih =>
    by_cases heq : r.line = line
    · have hs : s.line = line := (hline r s hrs).trans heq
      simpa [heq, hs] using Option.Rel.some hrs
    · have hs : ¬ s.line = line := fun h ↦ heq ((hline r s hrs).symm.trans h)
      simpa [heq, hs] using ih

variable [ExactAmount α]

/-- What is taken off a report is what the history keeps for its line in the month, if that is all
of earlier days. -/
theorem measures_of_adjusts {lookupRule : LookupRule} {date : Calendar.Date}
    (hdate : r.period = .ofDate date)
    (hearlier : ∀ t ∈ h.kept r.line r.period, 0 < t.period.day ∧ t.period.day < r.period.day)
    (hadjusts : Delta.Adjusts h.lookup lookupRule r s) :
    s.measures = r.measures - ((h.kept r.line r.period).map Report.measures).sum := by
  rcases hadjusts with ⟨hnone, rfl⟩ | ⟨q, recorded, hq, hrecorded, rfl⟩
  · have hday := Delta.day_eq_one_of_query?_none hdate hnone
    have hkept : h.kept s.line s.period = [] := by
      rw [List.eq_nil_iff_forall_not_mem]
      intro t ht
      obtain ⟨hpos, hlt⟩ := hearlier t ht
      rw [hdate, UInt32.lt_iff_toNat_lt, Period.ofDate_day, hday] at hlt
      rw [UInt32.lt_iff_toNat_lt, UInt32.toNat_zero] at hpos
      omega
    rw [hkept, List.map_nil, List.sum_nil, sub_zero]
  · have hcovered : h.reports.filter q.covers = h.kept r.line r.period := by
      apply List.filter_congr
      intro t ht
      rw [Bool.eq_iff_iff, Delta.covers_of_date hdate hq, Report.isOf_iff, ← and_assoc]
      refine and_iff_left_of_imp fun hof ↦ (hearlier t ?_).2
      exact List.mem_filter.mpr ⟨ht, Report.isOf_iff.mpr hof⟩
    have hvalue : h.monthToDate q = recorded := Except.ok.inj hrecorded
    have hsum := History.monthToDate_getD h q
    rw [hvalue, hcovered] at hsum
    rw [← hsum]
    cases recorded <;> simp [Delta.reduce]

theorem TotalsRun.total?_eq {whole : List (Report α)}
    (hwhole : run.totals = .ok whole) :
    run.total? line = (whole.find? fun r ↦ r.line = line).map Report.measures := by
  unfold TotalsRun.total?
  rw [hwhole]

/-- All reports of a run are of its day, and at most one of them is of a line. -/
theorem filter_isOf_of_outcome (hrun : run.outcome h = .ok reports)
    (hmonth : run.day.sharesMonth month) :
    reports.filter (Report.isOf line month) = (reports.find? fun r ↦ r.line = line).toList := by
  have hyields := Pipeline.yields_of_run hrun
  have hday : ∀ r ∈ reports, r.period = run.day := fun r hr ↦ (hyields r hr).period_eq rfl
  have hid : ∀ r ∈ reports, r.id = Identity.ofLine r.line run.day := fun r hr ↦
    hday r hr ▸ (hyields r hr).isDerived
  have hof : reports.filter (Report.isOf line month) = reports.filter fun r ↦ r.line = line := by
    apply List.filter_congr
    intro r hr
    rw [Report.isOf, hday r hr, hmonth, Bool.and_true]
  rw [hof, filter_line_eq (Pipeline.nodup_ids_of_run hrun) hid]

/-- A run yields one report of a line that it lists: the running total less the sum of what the
history keeps for the line in the month. -/
theorem daily_of_outcome (hrun : run.outcome h = .ok reports) (hmonth : run.day.sharesMonth month)
    (hearlier : ∀ t ∈ h.kept line month, 0 < t.period.day ∧ t.period.day < run.day.day) :
    (reports.filter (Report.isOf line month)).map Report.daily =
      ((run.total? line).map fun total ↦
        (run.day, total - ((h.kept line month).map Report.measures).sum)).toList := by
  obtain ⟨date, hdate⟩ := run.exists_day
  obtain ⟨whole, hwhole, hall⟩ := Pipeline.run_eq_ok hrun
  have hall := (if_pos (show Provider.aws.givesTotals = true from rfl)).mp hall
  have hfound := find?_line_of_forall₂ line
    (fun r s hadjusts ↦ by rw [Delta.Adjusts.eq hadjusts]) hall
  have hlisted : ∀ r, (whole.find? fun r ↦ r.line = line) = some r →
      r.line = line ∧ r.period = run.day := by
    intro r hr
    have hline : r.line = line := by simpa using List.find?_some hr
    exact ⟨hline, (Pipeline.yields_of_totals hwhole r (List.mem_of_find?_eq_some hr)).period_eq rfl⟩
  rw [filter_isOf_of_outcome hrun hmonth, TotalsRun.total?_eq hwhole]
  generalize (whole.find? fun r ↦ r.line = line) = listed at hfound hlisted ⊢
  generalize (reports.find? fun r ↦ r.line = line) = yielded at hfound ⊢
  cases hfound with
  | none => rfl
  | @some r s hadjusts =>
    obtain ⟨hline, hperiod⟩ := hlisted r rfl
    have hkept : h.kept r.line r.period = h.kept line month := by
      rw [hline, hperiod, h.kept_eq_of_sharesMonth line hmonth]
    have hdaily : s.daily =
        (run.day, r.measures - ((h.kept line month).map Report.measures).sum) := by
      rw [← hkept, ← hperiod] at hearlier
      rw [Report.daily, measures_of_adjusts (hperiod.trans hdate) hearlier hadjusts, hkept,
        hadjusts.eq, hperiod]
    rw [Option.toList_some, Option.map_some, Option.map_some, Option.toList_some, List.map_cons,
      List.map_nil, hdaily]

end Run

/-! ## A whole month -/

section Month

variable [ExactAmount α] {line : Line} {month : Period} {keys : Set (Line × Period)}
  {start h : History α} {runs : List TotalsRun}

open TotalsRun

theorem sum_increments (line : Line) (runs : List TotalsRun) :
    ((increments line runs : List (Period × Measures α)).map Prod.snd).sum =
      latestTotal line runs := by
  induction runs with
  | nil => rfl
  | cons run earlier ih =>
    rw [increments, latestTotal, List.map_append, List.sum_append, ih]
    cases (run.total? line : Option (Measures α)) with
    | none => simp
    | some total => simp

theorem exists_day_of_mem_increments {day : Period} {m : Measures α}
    (h : (day, m) ∈ increments line runs) : ∃ run ∈ runs, run.day = day := by
  induction runs with
  | nil => simp [increments] at h
  | cons run earlier ih =>
    rw [increments, List.mem_append] at h
    rcases h with hearlier | hrun
    · obtain ⟨other, hother, hday⟩ := ih hearlier
      exact ⟨other, List.mem_cons_of_mem run hother, hday⟩
    · obtain ⟨total, -, heq⟩ := Option.map_eq_some_iff.mp (Option.mem_toList.mp hrun)
      exact ⟨run, List.mem_cons_self, congrArg Prod.fst heq⟩

/-- What holds of a history at every point of a course. -/
structure CountsUp (line : Line) (month : Period) (keys : Set (Line × Period))
    (runs : List TotalsRun) (h : History α) : Prop where
  derived : ∀ r ∈ h.reports, r.IsDerived ∧ r.key ∈ keys
  kept_eq : (h.kept line month).map Report.daily = increments line runs

namespace CountsUp

variable {reports : List (Report α)} {run : TotalsRun}

theorem sum_kept (hcounts : CountsUp line month keys runs h) :
    ((h.kept line month).map Report.measures).sum = latestTotal line runs := by
  rw [← sum_increments, ← hcounts.kept_eq, List.map_map]
  rfl

theorem exists_day (hcounts : CountsUp line month keys runs h) :
    ∀ r ∈ h.kept line month, ∃ run ∈ runs, run.day = r.period := by
  intro r hr
  have hdaily : r.daily ∈ (h.kept line month).map Report.daily := List.mem_map_of_mem hr
  rw [hcounts.kept_eq] at hdaily
  exact exists_day_of_mem_increments hdaily

theorem derived_add (hcounts : CountsUp line month keys runs h)
    (hreports : ∀ r ∈ reports, r.IsDerived ∧ r.key ∈ keys) :
    ∀ r ∈ (h.add reports).reports, r.IsDerived ∧ r.key ∈ keys := by
  intro r hr
  rcases History.mem_or_mem_of_mem_add hr with hold | hnew
  · exact hcounts.derived r hold
  · exact hreports r hnew

/-- Saving what does not belong to the line in the month leaves what is kept for it. -/
theorem save (hcounts : CountsUp line month keys runs h)
    (hreports : ∀ r ∈ reports, r.IsDerived ∧ r.key ∈ keys ∧ ¬ r.isOf line month) :
    CountsUp line month keys runs (h.add reports) where
  derived := hcounts.derived_add fun r hr ↦ ⟨(hreports r hr).1, (hreports r hr).2.1⟩
  kept_eq := by
    have hnone : (h.additions reports).filter (Report.isOf line month) = [] := by
      rw [List.filter_eq_nil_iff]
      intro r hr
      exact (hreports r (fresh_subset _ _ hr)).2.2
    have hkept : (h.add reports).kept line month = h.kept line month := by
      rw [History.kept, History.add_reports, List.filter_append, hnone, List.append_nil]
      rfl
    rw [hkept, hcounts.kept_eq]

/-- A report of the line on a later day is new. -/
theorem additions_isOf (hcounts : CountsUp line month keys runs h)
    (hkeys : Set.InjOn (fun key ↦ Identity.ofLine key.1 key.2) keys)
    (hlater : ∀ earlier ∈ runs, earlier.day.day < run.day.day)
    (hnodup : (reports.map Report.id).Nodup)
    (hreports : ∀ r ∈ reports, r.IsDerived ∧ r.key ∈ keys ∧ r.period = run.day) :
    (h.additions reports).filter (Report.isOf line month) =
      reports.filter (Report.isOf line month) := by
  have hnew : ∀ r ∈ reports.filter (Report.isOf line month), r.id ∉ h.ids := by
    intro r hr hold
    obtain ⟨hr, hof⟩ := List.mem_filter.mp hr
    obtain ⟨hderived, hkey, hday⟩ := hreports r hr
    obtain ⟨s, hs, hid⟩ := List.mem_map.mp hold
    obtain ⟨hsderived, hskey⟩ := hcounts.derived s hs
    have hsame : s.key = r.key := hkeys hskey hkey (hsderived.symm.trans (hid.trans hderived))
    obtain ⟨hline, hperiod⟩ := Prod.mk.inj hsame
    have hkept : s ∈ h.kept line month := by
      rw [History.kept, List.mem_filter, Report.isOf, hline, hperiod]
      exact ⟨hs, hof⟩
    obtain ⟨earlier, hearlier, hsday⟩ := hcounts.exists_day s hkept
    have hlt := hlater earlier hearlier
    rw [hsday, hperiod, hday, UInt32.lt_iff_toNat_lt] at hlt
    omega
  rw [History.additions, fresh_eq_filter hnodup, List.filter_comm, List.filter_eq_self]
  intro r hr
  exact decide_eq_true (hnew r hr)

/-- A run on a later day adds its amounts for the line. -/
theorem run_add (hcounts : CountsUp line month keys runs h)
    (hkeys : Set.InjOn (fun key ↦ Identity.ofLine key.1 key.2) keys)
    (hmonth : run.day.sharesMonth month) (hlater : ∀ earlier ∈ runs, earlier.day.day < run.day.day)
    (hrun : run.outcome h = .ok reports) (hreports : ∀ r ∈ reports, r.key ∈ keys) :
    CountsUp line month keys (run :: runs) (h.add reports) where
  derived := hcounts.derived_add fun r hr ↦
    ⟨(Pipeline.yields_of_run hrun r hr).isDerived, hreports r hr⟩
  kept_eq := by
    have hearlier : ∀ t ∈ h.kept line month, 0 < t.period.day ∧ t.period.day < run.day.day := by
      intro t ht
      obtain ⟨earlier, hearlier, hday⟩ := hcounts.exists_day t ht
      obtain ⟨date, hdate⟩ := earlier.exists_day
      refine ⟨?_, hday ▸ hlater earlier hearlier⟩
      rw [← hday, hdate, UInt32.lt_iff_toNat_lt, Period.ofDate_day]
      exact date.day_pos
    have hadded : (h.additions reports).filter (Report.isOf line month) =
        reports.filter (Report.isOf line month) :=
      hcounts.additions_isOf hkeys hlater (Pipeline.nodup_ids_of_run hrun) fun r hr ↦
        have hyields := Pipeline.yields_of_run hrun r hr
        ⟨hyields.isDerived, hreports r hr, hyields.period_eq rfl⟩
    calc ((h.add reports).kept line month).map Report.daily
        = (h.kept line month).map Report.daily ++
            (reports.filter (Report.isOf line month)).map Report.daily := by
          rw [History.kept, History.add_reports, List.filter_append, hadded, List.map_append]
          rfl
      _ = increments line runs ++
            ((run.total? line).map fun total ↦
              (run.day, total - latestTotal line runs)).toList := by
          rw [daily_of_outcome hrun hmonth hearlier, hcounts.kept_eq, hcounts.sum_kept]

end CountsUp

/-- A course counts up from a history that keeps nothing for the line in the month. -/
theorem Course.countsUp (hcourse : Course line month keys start runs h)
    (hkeys : Set.InjOn (fun key ↦ Identity.ofLine key.1 key.2) keys)
    (hstart : ∀ r ∈ start.reports, r.IsDerived ∧ r.key ∈ keys ∧ ¬ r.isOf line month) :
    CountsUp line month keys runs h := by
  induction hcourse with
  | start =>
    refine ⟨fun r hr ↦ ⟨(hstart r hr).1, (hstart r hr).2.1⟩, ?_⟩
    rw [History.kept, List.filter_eq_nil_iff.mpr fun r hr ↦ (hstart r hr).2.2]
    rfl
  | save _ hreports ih => exact ih.save hreports
  | run _ hmonth hlater hrun hreports ih => exact ih.run_add hkeys hmonth hlater hrun hreports

/-- Through a month, each run that lists a line leaves one report of it, the running total less the
one of the run before; so what is kept for the line always sums to its last running total. -/
theorem kept_eq_increments (hcourse : Course line month keys start runs h)
    (hkeys : Set.InjOn (fun key ↦ Identity.ofLine key.1 key.2) keys)
    (hstart : ∀ r ∈ start.reports, r.IsDerived ∧ r.key ∈ keys ∧ ¬ r.isOf line month) :
    (h.kept line month).map Report.daily = increments line runs ∧
      ((h.kept line month).map Report.measures).sum = latestTotal line runs := by
  have hcounts := hcourse.countsUp hkeys hstart
  exact ⟨hcounts.kept_eq, hcounts.sum_kept⟩

end Month

/-! ## Two runs in April -/

section April

open Calendar TotalsRun

def eighthOfApril : Reference where
  zone := .steady "UTC" 0
  instant := 1460073600
  today := ⟨2016, 4, 8, by decide⟩
  yesterday := ⟨2016, 4, 7, by decide⟩
  today_eq := by decide
  yesterday_eq := by decide

def firstRun : TotalsRun :=
  ⟨⟨Reference.sixthOfApril, "eu", .today, .ownDay⟩, [itemExport "PayerLineItem,EC2,1,10,2"]⟩

def secondRun : TotalsRun :=
  ⟨⟨eighthOfApril, "eu", .today, .dayBefore⟩, [itemExport "PayerLineItem,EC2,1,25,5"]⟩

def itemLine : Line := ⟨.aws, "1", "EC2", "eu"⟩

def itemReport (run : TotalsRun) (measures : Measures ℚ) : Report ℚ :=
  .derived itemLine "" run.day "" measures

theorem firstRun_outcome :
    firstRun.outcome ({} : History ℚ) = .ok [itemReport firstRun ⟨10, 2⟩] := by
  decide +kernel

theorem secondRun_outcome :
    secondRun.outcome (({} : History ℚ).add [itemReport firstRun ⟨10, 2⟩]) =
      .ok [itemReport secondRun ⟨15, 3⟩] := by
  decide +kernel

/-- A line that stands at 10 on the sixth and at 25 on the eighth leaves reports of 10 and 15. -/
theorem kept_eq_increments_april :
    ∃ h : History ℚ,
      Course itemLine firstRun.day {(itemLine, firstRun.day), (itemLine, secondRun.day)} {}
        [secondRun, firstRun] h ∧
      (h.kept itemLine firstRun.day).map Report.daily =
        [(firstRun.day, ⟨10, 2⟩), (secondRun.day, ⟨15, 3⟩)] ∧
      ((h.kept itemLine firstRun.day).map Report.measures).sum = ⟨25, 5⟩ := by
  have hfirst : Course itemLine firstRun.day {(itemLine, firstRun.day), (itemLine, secondRun.day)}
      {} [firstRun] (({} : History ℚ).add [itemReport firstRun ⟨10, 2⟩]) := by
    refine .run .start (by decide) (by simp) firstRun_outcome ?_
    simp [itemReport, Report.key, Report.derived]
  have hsecond := Course.run hfirst (by decide) (by decide) secondRun_outcome
    (by simp [itemReport, Report.key, Report.derived])
  have hkeys : Set.InjOn (fun key ↦ Identity.ofLine key.1 key.2)
      ({(itemLine, firstRun.day), (itemLine, secondRun.day)} : Set (Line × Period)) := by
    rw [Set.injOn_pair]
    intro heq
    exact absurd heq (by decide +kernel)
  obtain ⟨hkept, hsum⟩ := kept_eq_increments hsecond hkeys (by simp)
  refine ⟨_, hsecond, hkept.trans ?_, hsum.trans ?_⟩
  · decide +kernel
  · decide +kernel

end April

end CloudLedger
