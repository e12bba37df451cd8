import CloudLedger.Proofs.Delta
import CloudLedger.Proofs.Store

/-!
# The two rules for looking usage up

One rule asks for the usage before the day of a report, the other for the usage through the day
before it, under another identity or not at all.  A history answers both alike: within a month the
same reports are covered, on the first of a month there are none to cover, and a period that is no
date is asked about in the same way.  Only for the first date of all does the second rule fail.
-/

namespace CloudLedger

open Calendar

variable {α : Type}

namespace Delta

variable {lookupRule : LookupRule} {r s : Report α} {q : Query} {h : History α}

/-- A rule that refuses to ask is asked about the first date of all. -/
theorem eq_first_of_query?_error {fault : Fault} (hq : query? lookupRule r = .error fault) :
    r.period = .first := by
  cases lookupRule with
  | ownDay => cases hq
  | dayBefore =>
    cases hdate : r.period.toDate? with
    | none => simp [query?, hdate] at hq
    | some date =>
      cases heve : date.previous? with
      | none =>
        obtain ⟨hyear, hmonth, hday⟩ := Date.eq_first_of_previous?_none heve
        rw [Period.eq_ofDate_of_toDate? hdate, Period.ofDate, hyear, hmonth, hday]
        rfl
      | some eve =>
        simp only [query?, hdate, heve] at hq
        split at hq <;> cases hq

variable [Amount α]

/-- Whatever a rule asks, a history answers as if the report's own day had been asked about. -/
theorem monthToDate_of_query? (hq : query? lookupRule r = .ok (some q)) :
    h.monthToDate q = h.monthToDate r.query := by
  cases hdate : r.period.toDate? with
  | none =>
    obtain rfl : r.query = q := by
      cases lookupRule <;> simpa [query?, hdate] using hq
    rfl
  | some date =>
    have hperiod : r.period = .ofDate date := Period.eq_ofDate_of_toDate? hdate
    have hown : query? .ownDay r = .ok (some r.query) := rfl
    apply History.monthToDate_congr
    apply List.filter_congr
    intro s _
    rw [Bool.eq_iff_iff, covers_of_date hperiod hq, covers_of_date hperiod hown]

/-- Where a rule asks nothing, a history of real days has nothing to answer. -/
theorem monthToDate_of_query?_none (hdays : ∀ s ∈ h.reports, 1 ≤ s.period.day)
    (hq : query? lookupRule r = .ok none) : h.monthToDate r.query = none := by
  cases hdate : r.period.toDate? with
  | none => cases lookupRule <;> simp [query?, hdate] at hq
  | some date =>
    have hperiod : r.period = .ofDate date := Period.eq_ofDate_of_toDate? hdate
    have hown : query? .ownDay r = .ok (some r.query) := rfl
    have hday : r.period.day.toNat = 1 := by
      rw [hperiod, Period.ofDate_day, day_eq_one_of_query?_none hperiod hq]
    refine if_pos (List.filter_eq_nil_iff.mpr fun s hs hcovers ↦ ?_)
    obtain ⟨-, -, hlt⟩ := (covers_of_date hperiod hown).mp hcovers
    have hpos := hdays s hs
    rw [UInt32.lt_iff_toNat_lt, hday] at hlt
    rw [UInt32.le_iff_toNat_le] at hpos
    exact absurd hpos (by simpa using hlt)

/-- Against a history of real days, every rule takes off what is recorded before the report's day.
-/
theorem adjusts_lookup_iff (hdays : ∀ s ∈ h.reports, 1 ≤ s.period.day) (hfirst : r.period ≠ .first) :
    Adjusts h.lookup lookupRule r s ↔ s = reduce r (h.monthToDate r.query) := by
  unfold Adjusts
  cases hq : query? lookupRule r with
  | error fault => exact absurd (eq_first_of_query?_error hq) hfirst
  | ok asked =>
    cases asked with
    | none => simp [monthToDate_of_query?_none hdays hq, reduce]
    | some q => simp [History.lookup, monthToDate_of_query? hq]

/-- Both rules give the same reports, down to the last bit, on every store that keeps a history of
real days. -/
theorem apply_ownDay_dayBefore {σ : Type} [Store σ] [KeepsHistory σ] (store : σ)
    {reports : List (Report Float)}
    (hdays : ∀ s ∈ (KeepsHistory.history store).reports, 1 ≤ s.period.day)
    (hfirst : ∀ r ∈ reports, r.period ≠ .first) :
    ∃ adjusted, (apply (Store.lookup store) .ownDay reports).outcome = .ok adjusted ∧
      (apply (Store.lookup store) .dayBefore reports).outcome = .ok adjusted := by
  have hmap (lookupRule : LookupRule) :
      (apply (Store.lookup store) lookupRule reports).outcome =
        .ok (reports.map fun r ↦ reduce r ((KeepsHistory.history store).monthToDate r.query)) := by
    rw [KeepsHistory.lookup_eq, outcome_apply_eq_ok, List.forall₂_map_right_iff, List.forall₂_same]
    intro r hr
    exact (adjusts_lookup_iff hdays (hfirst r hr)).mpr rfl
  exact ⟨_, hmap .ownDay, hmap .dayBefore⟩

/-! ## The end of a February -/

section February

def usageOn (id : String) (day month : UInt32) (amount : Float) : Report Float :=
  ⟨⟨id⟩, ⟨.aws, "1", "EC2", "eu"⟩, "", ⟨day, month, 2016⟩, "", ⟨amount, amount⟩⟩

def february : StateFile :=
  ⟨⟨"state.json"⟩, .ofReports [usageOn "a" 28 2 0.1, usageOn "b" 29 2 0.2]⟩

/-- Totals of a leap day, of a day that no calendar has, and of the first of a month. -/
def februaryTotals : List (Report Float) :=
  [usageOn "c" 29 2 0.7, usageOn "d" 31 2 0.8, usageOn "e" 1 3 0.9]

/-- The rules ask about the three totals differently and take off the same. -/
theorem apply_ownDay_dayBefore_february :
    (apply (Store.lookup february) .ownDay februaryTotals).asked.map Query.includesPeriod =
        [false, false, false] ∧
      (apply (Store.lookup february) .dayBefore februaryTotals).asked.map Query.includesPeriod =
        [true, false] ∧
      ∃ adjusted,
        (apply (Store.lookup february) .ownDay februaryTotals).outcome = .ok adjusted ∧
        (apply (Store.lookup february) .dayBefore februaryTotals).outcome = .ok adjusted ∧
        adjusted.map Report.measures =
          [⟨0.7 - 0.1, 0.7 - 0.1⟩, ⟨0.8 - (0.1 + 0.2), 0.8 - (0.1 + 0.2)⟩, ⟨0.9, 0.9⟩] := by
  have hdays : ∀ s ∈ (KeepsHistory.history february).reports, 1 ≤ s.period.day := by
    decide +kernel
  have hfirst : ∀ r ∈ februaryTotals, r.period ≠ .first := by decide +kernel
  obtain ⟨adjusted, hown, hbefore⟩ := apply_ownDay_dayBefore february hdays hfirst
  have hmeasures : (apply (Store.lookup february) .ownDay februaryTotals).outcome.map
      (List.map Report.measures) =
        .ok [⟨0.7 - 0.1, 0.7 - 0.1⟩, ⟨0.8 - (0.1 + 0.2), 0.8 - (0.1 + 0.2)⟩, ⟨0.9, 0.9⟩] := by
    decide +kernel
  rw [hown] at hmeasures
  exact ⟨by decide +kernel, by decide +kernel, adjusted, hown, hbefore, Except.ok.inj hmeasures⟩

end February

end Delta

end CloudLedger
