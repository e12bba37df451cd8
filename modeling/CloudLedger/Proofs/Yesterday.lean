import CloudLedger.Calendar.Reference
import CloudLedger.Calendar.ZoneRules
import CloudLedger.Proofs.DayNumbers

/-!
# Yesterday

The day before a day of the calendar comes directly before it: no other day lies between them.  The
reference day counts its yesterday on the clock of a time zone, and a period finds the day before by
the lengths of the months.  Both come to the same day.
-/

namespace CloudLedger

open Calendar

namespace Calendar

variable {zone : Zone} {instant seconds n : Int} {isLeap : Bool} {today yesterday d : Date}

theorem dayOfClock_eq_iff :
    dayOfClock seconds = n ↔ startOfDay n ≤ seconds ∧ seconds < startOfDay (n + 1) := by
  rw [dayOfClock, startOfDay, startOfDay, epoch, daySeconds]
  omega

/-- Whether the clock of a zone shows a date at a moment. -/
def Zone.Shows (zone : Zone) (instant : Int) (date : Date) : Prop :=
  startOfDay date.toDayNumber ≤ zone.clock instant ∧
    zone.clock instant < startOfDay (date.toDayNumber + 1)

instance (zone : Zone) (instant : Int) (date : Date) : Decidable (zone.Shows instant date) :=
  inferInstanceAs (Decidable (_ ∧ _))

theorem Zone.shows_iff : zone.Shows instant d ↔
    Date.ofDayNumber? (dayOfClock (zone.clock instant)) = some d := by
  rw [Date.ofDayNumber?_eq_some, eq_comm, dayOfClock_eq_iff, Zone.Shows]

theorem Reference.exists_of (isLeap : Bool)
    (htoday : Date.ofDayNumber? (dayOfClock (zone.clock instant)) = some today)
    (hyesterday : Date.ofDayNumber? (dayOfClock (zone.clock instant) - 1) = some yesterday) :
    ∃ r, Reference.of? zone instant isLeap = some r ∧ r.today = today ∧
      r.yesterday = yesterday := by
  unfold Reference.of?
  split
  · rename_i today' yesterday' htoday' hyesterday'
    exact ⟨_, rfl, Option.some.inj (htoday'.symm.trans htoday),
      Option.some.inj (hyesterday'.symm.trans hyesterday)⟩
  · rename_i hnone
    exact absurd hyesterday (hnone today yesterday htoday)

end Calendar

namespace Period

variable {p q r : Period} {d e : Date}

/-! ## Periods that are dates -/

/-- Whether a period is a day of the calendar. -/
def IsReal (p : Period) : Prop := IsDate p.year.toInt p.month.toNat p.day.toNat

instance (p : Period) : Decidable p.IsReal := inferInstanceAs (Decidable (_ ∧ _))

/-- Whether a period comes before another one: the year decides, then the month, then the day. -/
def Before (p q : Period) : Prop :=
  p.year < q.year ∨ p.year = q.year ∧
    (p.month < q.month ∨ p.month = q.month ∧ p.day < q.day)

theorem isReal_ofDate (d : Date) : (ofDate d).IsReal := by
  rw [IsReal, ofDate_year, ofDate_month, ofDate_day]
  exact d.isDate

theorem isReal_iff : p.IsReal ↔ ∃ d, p = ofDate d := by
  constructor
  · intro h
    exact ⟨⟨_, _, _, h⟩, eq_ofDate_of_toDate? (dif_pos h)⟩
  · rintro ⟨d, rfl⟩
    exact isReal_ofDate d

theorem before_ofDate : (ofDate d).Before (ofDate e) ↔ d.toDayNumber < e.toDayNumber := by
  rw [Date.toDayNumber_lt_iff, Before, Date.Before, Int32.lt_iff_toInt_lt, ← Int32.toInt_inj,
    UInt32.lt_iff_toNat_lt, ← UInt32.toNat_inj, UInt32.lt_iff_toNat_lt]
  simp only [ofDate_year, ofDate_month, ofDate_day]

theorem ofDate_injective (h : ofDate d = ofDate e) : d = e := by
  rw [← Option.some.injEq, ← toDate?_ofDate d, h, toDate?_ofDate]

/-! ## The day before -/

@[simp]
theorem dayBefore?_ofDate (d : Date) : (ofDate d).dayBefore? = d.previous?.map ofDate := by
  rw [dayBefore?, toDate?_ofDate, Option.bind_some]

theorem dayBefore?_eq_some : p.dayBefore? = some q ↔
    ∃ d e, p = ofDate d ∧ q = ofDate e ∧ d.previous? = some e := by
  constructor
  · intro h
    obtain ⟨e, he, rfl⟩ := Option.map_eq_some_iff.mp h
    obtain ⟨d, hd, hprevious⟩ := Option.bind_eq_some_iff.mp he
    exact ⟨d, e, eq_ofDate_of_toDate? hd, rfl, hprevious⟩
  · rintro ⟨d, e, rfl, rfl, hprevious⟩
    rw [dayBefore?_ofDate, hprevious, Option.map_some]

theorem dayBefore?_of_not_isReal (h : ¬ p.IsReal) : p.dayBefore? = none := by
  rw [Option.eq_none_iff_forall_ne_some]
  intro q hq
  obtain ⟨d, -, rfl, -⟩ := dayBefore?_eq_some.mp hq
  exact h (isReal_ofDate d)

theorem dayBefore?_injective (hp : p.dayBefore? = some r) (hq : q.dayBefore? = some r) :
    p = q := by
  obtain ⟨d, e, rfl, rfl, hd⟩ := dayBefore?_eq_some.mp hp
  obtain ⟨d', e', rfl, he, hd'⟩ := dayBefore?_eq_some.mp hq
  rw [Date.previous?_eq_some] at hd hd'
  rw [ofDate_injective he] at hd
  rw [Date.toDayNumber_injective (hd.symm.trans hd')]

/-- Every date but the first of all has a day before it. -/
theorem exists_previous? (h : ofDate d ≠ first) : ∃ e, d.previous? = some e := by
  rw [← Option.isSome_iff_exists, Option.isSome_iff_ne_none]
  intro hnone
  obtain ⟨hyear, hmonth, hday⟩ := Date.eq_first_of_previous?_none hnone
  apply h
  rw [ofDate, hyear, hmonth, hday]
  rfl

theorem not_between (h : d.previous? = some e) (hr : r.IsReal) :
    ¬ ((ofDate e).Before r ∧ r.Before (ofDate d)) := by
  obtain ⟨f, rfl⟩ := isReal_iff.mp hr
  rw [before_ofDate, before_ofDate]
  have hnumber := Date.previous?_eq_some.mp h
  omega

theorem sharesMonth_previous? (h : d.previous? = some e) :
    (ofDate e).sharesMonth (ofDate d) ↔ 1 < (ofDate d).day := by
  rw [sharesMonth_iff, UInt32.lt_iff_toNat_lt]
  simp only [ofDate_year, ofDate_month, ofDate_day, UInt32.toNat_one]
  by_cases hday : 1 < d.day
  · have hsame := (Date.previous?_of_one_lt hday).mp h
    exact iff_of_true ⟨hsame.1, hsame.2.1⟩ hday
  · exact iff_of_false (Date.month_ne_of_previous? hday h) hday

/-- The day before a day of the calendar, other than the first of all, is the day of the calendar
directly before it, in the same month unless a month begins; different days have different days
before them, and a period that is no day of the calendar has none.  Whatever day the clock of a time
zone shows, other than the first of all, the yesterday of the reference is the day before today. -/
theorem dayBefore_adjacent :
    (∀ p : Period, p.IsReal → p ≠ first → ∃ q, p.dayBefore? = some q ∧ q.IsReal ∧ q.Before p ∧
      (∀ r : Period, r.IsReal → ¬ (q.Before r ∧ r.Before p)) ∧
      (q.sharesMonth p ↔ 1 < p.day)) ∧
    (∀ p q r : Period, p.dayBefore? = some r → q.dayBefore? = some r → p = q) ∧
    (∀ p : Period, ¬ p.IsReal → p.dayBefore? = none) ∧
    ∀ (zone : Zone) (instant : Int) (isLeap : Bool) (today : Date), zone.Shows instant today →
      ofDate today ≠ first → ∃ r, Reference.of? zone instant isLeap = some r ∧ r.today = today ∧
        (ofDate r.today).dayBefore? = some (ofDate r.yesterday) := by
  refine ⟨fun p hp hfirst ↦ ?_, fun p q r ↦ dayBefore?_injective,
    fun p ↦ dayBefore?_of_not_isReal, fun zone instant isLeap today hshows hfirst ↦ ?_⟩
  · obtain ⟨d, rfl⟩ := isReal_iff.mp hp
    obtain ⟨e, he⟩ := exists_previous? hfirst
    have hbefore : e.toDayNumber < d.toDayNumber := by
      have hnumber := Date.previous?_eq_some.mp he
      omega
    exact ⟨ofDate e, dayBefore?_eq_some.mpr ⟨d, e, rfl, rfl, he⟩, isReal_ofDate e,
      before_ofDate.mpr hbefore, fun r ↦ not_between he, sharesMonth_previous? he⟩
  · obtain ⟨yesterday, hprevious⟩ := exists_previous? hfirst
    have htoday := Zone.shows_iff.mp hshows
    have hyesterday :
        Date.ofDayNumber? (dayOfClock (zone.clock instant) - 1) = some yesterday := by
      have hnumber := Date.previous?_eq_some.mp hprevious
      rw [Date.ofDayNumber?_eq_some] at htoday ⊢
      omega
    obtain ⟨r, hr, rfl, rfl⟩ := Reference.exists_of isLeap htoday hyesterday
    exact ⟨r, hr, rfl, dayBefore?_eq_some.mpr ⟨_, _, rfl, rfl, hprevious⟩⟩

/-- The first of March follows the 29 February in the year 2000 and the 28 February in the year
1900, and on the evening of the 29 February 2016 in Los Angeles yesterday was the 28. -/
theorem dayBefore_adjacent_march :
    (∃ q, (⟨1, 3, 2000⟩ : Period).dayBefore? = some q ∧ q = ⟨29, 2, 2000⟩ ∧
        ¬ q.sharesMonth ⟨1, 3, 2000⟩) ∧
      (∃ q, (⟨1, 3, 1900⟩ : Period).dayBefore? = some q ∧ q = ⟨28, 2, 1900⟩ ∧
        ¬ (q.Before ⟨28, 2, 1900⟩ ∧ (⟨28, 2, 1900⟩ : Period).Before ⟨1, 3, 1900⟩)) ∧
      (⟨29, 2, 1900⟩ : Period).dayBefore? = none ∧
      ∃ r, Reference.of? (.american "America/Los_Angeles" (-480)) 1456808400 = some r ∧
        ofDate r.today = ⟨29, 2, 2016⟩ ∧ ofDate r.yesterday = ⟨28, 2, 2016⟩ := by
  obtain ⟨hdays, -, hunreal, hreference⟩ := dayBefore_adjacent
  obtain ⟨q, hq, -, -, -, hmonth⟩ := hdays ⟨1, 3, 2000⟩ (by decide) (by decide)
  obtain ⟨q', hq', -, -, hbetween, -⟩ := hdays ⟨1, 3, 1900⟩ (by decide) (by decide)
  obtain ⟨r, hr, htoday, hyesterday⟩ := hreference (.american "America/Los_Angeles" (-480))
    1456808400 false ⟨2016, 2, 29, by decide⟩ (by decide +kernel) (by decide)
  have hmarch : (⟨1, 3, 2000⟩ : Period).dayBefore? = some ⟨29, 2, 2000⟩ := by decide
  have hcentury : (⟨1, 3, 1900⟩ : Period).dayBefore? = some ⟨28, 2, 1900⟩ := by decide
  have hleap : (ofDate ⟨2016, 2, 29, by decide⟩).dayBefore? = some ⟨28, 2, 2016⟩ := by decide
  refine ⟨⟨q, hq, Option.some.inj (hq.symm.trans hmarch), ?_⟩,
    ⟨q', hq', Option.some.inj (hq'.symm.trans hcentury), hbetween _ (by decide)⟩,
    hunreal _ (by decide), r, hr, htoday ▸ rfl, ?_⟩
  · rw [hmonth]
    decide
  · rw [htoday, hleap] at hyesterday
    exact (Option.some.inj hyesterday).symm

end Period

end CloudLedger
