import CloudLedger.Delta
import CloudLedger.Proofs.Calendar
import CloudLedger.Proofs.Outcomes

/-!
# What is taken off a running total

A report is asked about with a query that covers, of its own line and month, exactly the reports of
earlier days, whichever rule chooses the day; where the rule asks nothing there are no earlier days.
Taking recorded amounts off changes the reports one by one, and nothing but their measures.
-/

namespace CloudLedger

open Calendar

variable {α : Type}

theorem Query.covers_iff {q : Query} {s : Report α} :
    q.covers s ↔ s.line = q.line ∧ s.period.sharesMonth q.period ∧ q.reaches s.period.day := by
  simp [covers, and_assoc]

namespace Delta

variable {lookupRule : LookupRule} {r s : Report α} {q : Query} {date : Date}

/-- A query reaches exactly the days before the day of its report. -/
theorem query?_of_date (hdate : r.period = .ofDate date) (hq : query? lookupRule r = .ok (some q)) :
    q.line = r.line ∧ q.period.sharesMonth r.period ∧
      ∀ day : UInt32, q.reaches day ↔ day < r.period.day := by
  cases lookupRule with
  | ownDay =>
    obtain rfl : r.query = q := by simpa [query?] using hq
    refine ⟨rfl, by simp [Report.query, Period.sharesMonth], fun day ↦ ?_⟩
    rw [Query.reaches, Report.query, Bool.false_and, Bool.or_false, decide_eq_true_iff]
  | dayBefore =>
    simp only [query?, hdate, Period.toDate?_ofDate] at hq
    split at hq
    · cases hq
    · rename_i eve heve
      split at hq
      · rename_i hshares
        obtain rfl : r.query.upTo (.ofDate eve) = q := by simpa using hq
        have hday : 1 < date.day := by
          by_contra h
          refine Date.month_ne_of_previous? h heve ?_
          simpa [Period.sharesMonth_iff] using hshares
        obtain ⟨-, -, heveday⟩ := (Date.previous?_of_one_lt hday).mp heve
        refine ⟨rfl, hdate ▸ hshares, fun day ↦ ?_⟩
        simp only [Query.upTo, Query.reaches, hdate, Bool.true_and, Bool.or_eq_true,
          decide_eq_true_eq, UInt32.lt_iff_toNat_lt, ← UInt32.toNat_inj, Period.ofDate_day]
        omega
      · cases hq

/-- The query of a dated report covers the reports of its line on earlier days of the month. -/
theorem covers_of_date (hdate : r.period = .ofDate date)
    (hq : query? lookupRule r = .ok (some q)) :
    q.covers s ↔
      s.line = r.line ∧ s.period.sharesMonth r.period ∧ s.period.day < r.period.day := by
  obtain ⟨hline, hmonth, hreaches⟩ := query?_of_date hdate hq
  rw [Query.covers_iff, hline, hreaches]
  constructor
  · rintro ⟨h, hshares, hday⟩
    exact ⟨h, Period.sharesMonth_trans hshares hmonth, hday⟩
  · rintro ⟨h, hshares, hday⟩
    exact ⟨h, Period.sharesMonth_trans hshares (Period.sharesMonth_comm _ _ ▸ hmonth), hday⟩

/-- Nothing is asked only on the first of a month. -/
theorem day_eq_one_of_query?_none (hdate : r.period = .ofDate date)
    (hq : query? lookupRule r = .ok none) : date.day = 1 := by
  cases lookupRule with
  | ownDay => simp [query?] at hq
  | dayBefore =>
    simp only [query?, hdate, Period.toDate?_ofDate] at hq
    split at hq
    · cases hq
    · rename_i eve heve
      split at hq
      · cases hq
      · rename_i hshares
        by_contra hday
        have hlt : 1 < date.day := by have := date.day_pos; omega
        obtain ⟨hyear, hmonth, -⟩ := (Date.previous?_of_one_lt hlt).mp heve
        exact hshares (Period.sharesMonth_iff.mpr (by simp [hyear, hmonth]))

/-! ## All reports -/

variable [Amount α] {lookup lookup' : Lookup α} {reports adjusted : List (Report α)}

/-- What a report becomes when recorded amounts are taken off. -/
def Adjusts (lookup : Lookup α) (lookupRule : LookupRule) (r s : Report α) : Prop :=
  (query? lookupRule r = .ok none ∧ s = r) ∨
    ∃ q recorded, query? lookupRule r = .ok (some q) ∧ lookup q = .ok recorded ∧
      s = reduce r recorded

theorem reduce_eq (r : Report α) (recorded : Option (Measures α)) :
    reduce r recorded = { r with measures := (reduce r recorded).measures } := by
  cases recorded <;> rfl

/-- Nothing but the measures of a report changes. -/
theorem Adjusts.eq (h : Adjusts lookup lookupRule r s) : s = { r with measures := s.measures } := by
  rcases h with ⟨-, rfl⟩ | ⟨q, recorded, -, -, rfl⟩
  · rfl
  · exact reduce_eq r recorded

theorem outcome_apply_eq_ok :
    (apply lookup lookupRule reports).outcome = .ok adjusted ↔
      List.Forall₂ (Adjusts lookup lookupRule) reports adjusted := by
  induction reports generalizing adjusted with
  | nil => simp [apply, Traced.silent, eq_comm]
  | cons r rest ih =>
    rw [List.forall₂_cons_left_iff, apply]
    split
    · rename_i hq
      simp [Traced.silent, Adjusts, hq]
    · rename_i hq
      simp only [Traced.map, map_eq_ok, ih, Adjusts, hq]
      grind
    · rename_i q hq
      split
      · rename_i hlookup
        simp [Adjusts, hq, hlookup]
      · rename_i recorded hlookup
        simp only [Traced.map, Traced.after, map_eq_ok, ih, Adjusts, hq]
        grind

/-- Only what is asked about matters. -/
theorem apply_congr
    (h : ∀ r ∈ reports, ∀ q, query? lookupRule r = .ok (some q) → lookup q = lookup' q) :
    apply lookup lookupRule reports = apply lookup' lookupRule reports := by
  induction reports with
  | nil => rfl
  | cons r rest ih =>
    have hrest := ih fun s hs ↦ h s (List.mem_cons_of_mem r hs)
    rw [apply, apply]
    split
    · rfl
    · rw [hrest]
    · rename_i q hq
      rw [h r List.mem_cons_self q hq, hrest]

end Delta

end CloudLedger
