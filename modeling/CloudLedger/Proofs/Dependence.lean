import CloudLedger.Proofs.Pipeline
import CloudLedger.Proofs.Store

/-!
# What a pipeline learns from a store

Pipelines of dated amounts ask nothing.  A running total is asked about with a query for reports of
its own line on earlier days of its month, whatever the rule; two stores that hold the same of
these, in the same order, lead to the same reports down to the last bit.

The same is true line by line: what is recorded for one line leaves the reports of all others alone.
-/

namespace CloudLedger

variable {α : Type}

/-- The recorded running totals of the month of a day that are booked to days before it. -/
def History.before (h : History α) (day : Period) : List (Report α) :=
  h.reports.filter fun r ↦
    r.line.provider = .aws && r.period.sharesMonth day && r.period.day < day.day

/-- The reports of one line. -/
def Report.onLine (line : Line) (reports : List (Report α)) : List (Report α) :=
  reports.filter fun r ↦ r.line = line

namespace Report

variable {line : Line} {r s : Report α} (rest : List (Report α))

theorem onLine_cons_self : onLine r.line (r :: rest) = r :: onLine r.line rest :=
  List.filter_cons_of_pos (by simp)

theorem onLine_cons_of_ne (h : r.line ≠ line) : onLine line (r :: rest) = onLine line rest :=
  List.filter_cons_of_neg (by simpa using h)

/-- A report of the line stays in front of the others, and any other report is left out.  What
agrees on the line therefore still does with one more report. -/
theorem onLine_map_cons_congr {x y : Except Fault (List (Report α))} (hlines : r.line = s.line)
    (hsame : r.line = line → r = s) (hrest : onLine line <$> x = onLine line <$> y) :
    onLine line <$> (r :: ·) <$> x = onLine line <$> (s :: ·) <$> y := by
  by_cases hline : r.line = line
  · obtain rfl := hsame hline
    have hstays : onLine line ∘ (r :: ·) = (r :: ·) ∘ onLine line := by
      funext rest
      rw [← hline]
      exact onLine_cons_self rest
    rw [← comp_map, ← comp_map, hstays, comp_map, comp_map, hrest]
  · have hout (r : Report α) (h : r.line ≠ line) : onLine line ∘ (r :: ·) = onLine line :=
      funext fun rest ↦ onLine_cons_of_ne rest h
    rw [← comp_map, ← comp_map, hout r hline, hout s (hlines ▸ hline), hrest]

end Report

variable [Amount α]

namespace Delta

variable {lookupRule : LookupRule} {g h : History α} {reports : List (Report α)} {line : Line}

@[simp]
theorem reduce_line (r : Report α) (recorded : Option (Measures α)) :
    (reduce r recorded).line = r.line := by
  rw [reduce_eq]

/-- What two histories record for other lines makes no difference to the reports of a line. -/
theorem onLine_apply_congr
    (hsame : ∀ r ∈ reports, r.line = line → ∀ q, query? lookupRule r = .ok (some q) →
      g.monthToDate q = h.monthToDate q) :
    Report.onLine line <$> (apply g.lookup lookupRule reports).outcome =
      Report.onLine line <$> (apply h.lookup lookupRule reports).outcome := by
  induction reports with
  | nil => rfl
  | cons r rest ih =>
    have hrest := ih fun s hs ↦ hsame s (List.mem_cons_of_mem r hs)
    rw [apply, apply]
    split
    · rfl
    · exact Report.onLine_map_cons_congr rfl (fun _ ↦ rfl) hrest
    · rename_i q hq
      have hlines := (reduce_line r (g.monthToDate q)).trans (reduce_line r (h.monthToDate q)).symm
      refine Report.onLine_map_cons_congr hlines (fun hline ↦ ?_) hrest
      rw [hsame r List.mem_cons_self (reduce_line r _ ▸ hline) q hq]

end Delta

namespace Pipeline

variable {c : Configuration} {r : Report α} {q : Query} {exports : List (List UInt8)}

omit [Amount α] in
/-- A question about a running total covers the reports of its line before the booking day. -/
theorem filter_covers (hr : Yields c .aws r) (hq : Delta.query? c.lookupRule r = .ok (some q))
    (h : History α) :
    h.reports.filter q.covers = Report.onLine r.line (h.before c.bookingDay) := by
  obtain ⟨date, hdate⟩ := c.exists_bookingDay
  have hday := hr.period_eq rfl
  rw [Report.onLine, History.before, List.filter_filter]
  apply List.filter_congr
  intro s _
  rw [Bool.eq_iff_iff, Delta.covers_of_date (hday.trans hdate) hq, hday]
  have hprovider : s.line = r.line → s.line.provider = .aws := fun hline ↦ by
    rw [hline, hr.provider_eq]
  simp only [Bool.and_eq_true, decide_eq_true_eq]
  tauto

theorem monthToDate_eq_of_before {g h : History α} (hr : Yields c .aws r)
    (hq : Delta.query? c.lookupRule r = .ok (some q))
    (hsame : Report.onLine r.line (g.before c.bookingDay) =
      Report.onLine r.line (h.before c.bookingDay)) :
    g.monthToDate q = h.monthToDate q := by
  apply History.monthToDate_congr
  rw [filter_covers hr hq g, filter_covers hr hq h, hsame]

/-- A provider of dated amounts is asked nothing about. -/
theorem asked_eq_nil {provider : Provider} (hdated : ¬ provider.givesTotals) (lookup : Lookup α) :
    (run c lookup provider exports).asked = [] := by
  unfold run
  split
  · rfl
  · rw [if_neg hdated]
    rfl

theorem onLine_run_congr {g h : History α} {line : Line}
    (hsame : Report.onLine line (g.before c.bookingDay) =
      Report.onLine line (h.before c.bookingDay)) :
    Report.onLine line <$> (run c g.lookup .aws exports).outcome =
      Report.onLine line <$> (run c h.lookup .aws exports).outcome := by
  unfold run
  cases hwhole : (totals c .aws exports : Except Fault (List (Report α))) with
  | error fault => rfl
  | ok reports =>
    apply Delta.onLine_apply_congr
    rintro r hr rfl q hq
    exact monthToDate_eq_of_before (yields_of_totals hwhole r hr) hq hsame

open KeepsHistory in
/-- Pipelines of dated amounts ask nothing and give the same whatever they are told.  A pipeline of
running totals, under either rule, gives the same from any two stores that record the same running
totals before the booking day, and the same for a line if they record the same for that line. -/
theorem run_determined_by_before (c : Configuration) (exports : List (List UInt8)) :
    (∀ provider, provider ≠ .aws → ∀ lookup lookup' : Lookup Float,
      (run c lookup provider exports).asked = [] ∧
        run c lookup provider exports = run c lookup' provider exports) ∧
    ∀ {σ τ : Type} [Store σ] [KeepsHistory σ] [Store τ] [KeepsHistory τ] (s : σ) (t : τ),
      ((history s).before c.bookingDay = (history t).before c.bookingDay →
        run c (Store.lookup s) .aws exports = run c (Store.lookup t) .aws exports) ∧
      ∀ line,
        Report.onLine line ((history s).before c.bookingDay) =
          Report.onLine line ((history t).before c.bookingDay) →
        Report.onLine line <$> (run c (Store.lookup s) .aws exports).outcome =
          Report.onLine line <$> (run c (Store.lookup t) .aws exports).outcome := by
  refine ⟨fun provider hprovider lookup lookup' ↦ ?_, fun s t ↦ ⟨fun hsame ↦ ?_, ?_⟩⟩
  · have hdated : ¬ provider.givesTotals := by simpa [Provider.givesTotals] using hprovider
    refine ⟨asked_eq_nil hdated lookup, ?_⟩
    unfold run
    simp only [if_neg hdated]
  · rw [lookup_eq, lookup_eq]
    apply run_congr
    intro r q hr hq
    have hanswer := monthToDate_eq_of_before hr hq (congrArg (Report.onLine r.line) hsame)
    rw [History.lookup, History.lookup, hanswer]
  · intro line hsame
    rw [lookup_eq, lookup_eq]
    exact onLine_run_congr hsame

/-! ## A bill of two lines -/

section TwoLines

def twoLines : Configuration := { reference := .sixthOfApril, lookupRule := .dayBefore }

def twoLineBill : List (List UInt8) :=
  [itemExport "PayerLineItem,EC2,1,10,2", itemExport "PayerLineItem,S3,1,5,1"]

def computing : Line := ⟨.aws, "1", "EC2", ""⟩

def storage : Line := ⟨.aws, "1", "S3", ""⟩

def spentOn (id : String) (line : Line) (day month : UInt32) (amount : Float) : Report Float :=
  ⟨⟨id⟩, line, "", ⟨day, month, 2016⟩, "", ⟨amount, amount⟩⟩

/-- A store with reports of another month, another provider and the booking day. -/
def crowded : History Float :=
  .ofReports [spentOn "a" computing 4 3 9, spentOn "b" computing 4 4 1.5,
    spentOn "c" { computing with provider := .azure } 4 4 9, spentOn "d" storage 1 4 0.5,
    spentOn "e" computing 5 4 9]

def sparse : StateFile :=
  ⟨⟨"state.json"⟩, .ofReports [spentOn "b" computing 4 4 1.5, spentOn "d" storage 1 4 0.5]⟩

def onlyComputing : History Float := .ofReports [spentOn "b" computing 4 4 1.5]

/-- A store in memory and a file that agree on earlier days lead to the same two reports, and one
without storage to the same report of computing. -/
theorem run_determined_by_before_twoLines :
    run twoLines (fun _ ↦ .error .outsideCalendar) .azure twoLineBill =
        (run twoLines (fun _ ↦ .ok none) .azure twoLineBill : Traced (List (Report Float))) ∧
      run twoLines (Store.lookup crowded) .aws twoLineBill =
        run twoLines (Store.lookup sparse) .aws twoLineBill ∧
      Report.onLine computing <$> (run twoLines (Store.lookup crowded) .aws twoLineBill).outcome =
        Report.onLine computing <$>
          (run twoLines (Store.lookup onlyComputing) .aws twoLineBill).outcome ∧
      (run twoLines (Store.lookup sparse) .aws twoLineBill).outcome.map (List.map Report.measures) =
        .ok [⟨8.5, 0.5⟩, ⟨4.5, 0.5⟩] := by
  obtain ⟨hdated, hstores⟩ := run_determined_by_before twoLines twoLineBill
  have hsame : crowded.before twoLines.bookingDay = sparse.history.before twoLines.bookingDay := by
    decide +kernel
  have hline : Report.onLine computing (crowded.before twoLines.bookingDay) =
      Report.onLine computing (onlyComputing.before twoLines.bookingDay) := by
    decide +kernel
  refine ⟨(hdated .azure (by decide) _ _).2, (hstores crowded sparse).1 hsame, ?_, ?_⟩
  · exact (hstores crowded onlyComputing).2 computing hline
  · decide +kernel

end TwoLines

end Pipeline

end CloudLedger
