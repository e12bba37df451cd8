import CloudLedger.Proofs.Calendar
import CloudLedger.Proofs.Numerals
import CloudLedger.Proofs.Trimming
import CloudLedger.Usage.Dating
import Mathlib.Data.List.TakeWhile

/-!
# A timestamp counts for the date written in it

A timestamp is written as a date and a time of day, each part with all its digits, and an offset.
Whatever the offset, and so whatever the date was in universal time, reading gives the date that was
written; blanks around the timestamp do not matter.  A text that is no timestamp at all counts for
the reference day.
-/

namespace CloudLedger.Calendar

open Text

variable {cs ds rest : List Char} {n width : Nat} {c : Char}

/-! ## What is written -/

/-- A time of day. -/
structure TimeOfDay where
  hour : Fin 24
  minute : Fin 60
  second : Fin 60

/-- What a timestamp ends in: a `Z`, or hours and minutes with a sign. -/
inductive OffsetMark where
  | universal
  | ahead (hours : Fin 24) (minutes : Fin 60)
  | behind (hours : Fin 24) (minutes : Fin 60)

namespace TimeOfDay

/-- Hours, minutes and seconds of two digits each. -/
def text (t : TimeOfDay) : String :=
  zeroPadded 2 t.hour ++ ":" ++ zeroPadded 2 t.minute ++ ":" ++ zeroPadded 2 t.second

/-- Seconds since midnight. -/
def seconds (t : TimeOfDay) : Int := 3600 * t.hour + 60 * t.minute + t.second

theorem seconds_mem (time : TimeOfDay) : 0 ≤ time.seconds ∧ time.seconds < 86400 := by
  have hhour := time.hour.isLt
  have hminute := time.minute.isLt
  have hsecond := time.second.isLt
  rw [seconds]
  omega

end TimeOfDay

namespace OffsetMark

/-- The mark as a timestamp has it. -/
def text : OffsetMark → String
  | universal => "Z"
  | ahead hours minutes => "+" ++ zeroPadded 2 hours ++ ":" ++ zeroPadded 2 minutes
  | behind hours minutes => "-" ++ zeroPadded 2 hours ++ ":" ++ zeroPadded 2 minutes

/-- The minutes that a clock with the offset is ahead of universal time. -/
def minutes : OffsetMark → Int
  | universal => 0
  | ahead hours minutes => 60 * hours + minutes
  | behind hours minutes => -(60 * hours + minutes)

theorem minutes_mem (offset : OffsetMark) :
    -1440 < offset.minutes ∧ offset.minutes < 1440 := by
  cases offset with
  | universal => decide
  | ahead hours minutes | behind hours minutes =>
    have hhours := hours.isLt
    have hminutes := minutes.isLt
    rw [OffsetMark.minutes]
    omega

end OffsetMark

/-- A date, a time and an offset in one text. -/
def stampText (date : Date) (time : TimeOfDay) (offset : OffsetMark) : String :=
  (Period.ofDate date).text ++ "T" ++ time.text ++ offset.text

/-! ## Reading numbers of fixed width -/

theorem not_isBlank_of_isDigit (h : isDigit c) : ¬ isBlank c := by
  rw [StateFile.isDigit_iff] at h
  simp [isBlank, blankRanges]
  omega

theorem trimFront_denotes (h : Denotes ds n) : trimFront (ds ++ rest) = ds ++ rest := by
  obtain ⟨d, more, rfl, hd⟩ := h.exists_cons
  exact trimFront_of_head? fun c hc ↦ Option.some.inj hc ▸ not_isBlank_of_isDigit hd

namespace Timestamp

theorem some_bind {α β : Type} (a : α) (f : α → Option β) : (some a >>= f) = f a := rfl

theorem digits_denotes (h : Denotes ds n) (hlength : ds.length = width) :
    digits width (ds ++ rest) = some (n, rest) := by
  have htake : ((ds ++ rest).take width).takeWhile isDigit = ds := by
    rw [List.take_left' hlength, List.takeWhile_eq_self_iff]
    exact h.areDigits
  rw [digits, htake, if_neg h.ne_nil, h.digitsValue_eq, List.drop_left]

theorem small_zeroPadded {low high : Nat} (hlow : low ≤ n) (hhigh : n ≤ high) (hn : n < 100) :
    small low high ((zeroPadded 2 n).toList ++ rest) = some (n, rest) := by
  have hdenotes := denotes_zeroPadded 2 n
  rw [small, trimFront_denotes hdenotes,
    digits_denotes hdenotes (length_zeroPadded (by decide) hn), some_bind]
  exact if_pos ⟨hlow, hhigh⟩

theorem year_zeroPadded (hn : n ≤ 9999) :
    year ((zeroPadded 4 n).toList ++ rest) = some ((n : Int), rest) := by
  have hdenotes := denotes_zeroPadded 4 n
  have hdigits : digits 4 ((zeroPadded 4 n).toList ++ rest) = some (n, rest) :=
    digits_denotes hdenotes (length_zeroPadded (by decide) (Nat.lt_succ_of_le hn))
  rw [year, trimFront_denotes hdenotes]
  -- the first digit is no sign, so that the year ends after four digits
  obtain ⟨d, more, hds, hd⟩ := hdenotes.exists_cons
  rw [hds] at hdigits ⊢
  split
  · rename_i heq
    rw [(List.cons.inj heq).1] at hd
    exact absurd hd (by decide)
  · rename_i heq
    rw [(List.cons.inj heq).1] at hd
    exact absurd hd (by decide)
  · rw [hdigits, Option.map_some]

theorem pair_zeroPadded (hn : n < 100) :
    pair ((zeroPadded 2 n).toList ++ rest) = some (n, rest) := by
  have hdenotes := denotes_zeroPadded 2 n
  obtain ⟨a, b, hds⟩ := List.length_eq_two.mp (length_zeroPadded (by decide) hn)
  rw [hds] at hdenotes ⊢
  have hdigits : isDigit a ∧ isDigit b :=
    ⟨hdenotes.areDigits a (by simp), hdenotes.areDigits b (by simp)⟩
  rw [List.cons_append, List.cons_append, List.nil_append, pair, if_pos hdigits,
    hdenotes.digitsValue_eq]

/-! ## Reading an offset -/

theorem not_isGap_of_isDigit (h : isDigit c) : ¬ isGap c := by
  rw [isGap, Bool.or_eq_true, decide_eq_true_iff]
  rintro (rfl | hblank)
  · exact absurd h (by decide)
  · exact not_isBlank_of_isDigit h hblank

theorem dropWhile_isGap_colon (h : Denotes ds n) : (':' :: ds).dropWhile isGap = ds := by
  obtain ⟨d, more, rfl, hd⟩ := h.exists_cons
  rw [List.dropWhile_cons_of_pos (by decide), List.dropWhile_cons_of_neg (not_isGap_of_isDigit hd)]

/-- Hours and minutes are read with the sign that stands before them. -/
theorem zoneOffset_signed (mark : Char) (factor : Int) (hblank : ¬ isBlank mark)
    (hsign : ∀ rest, sign (mark :: rest) = some (factor, rest)) (hours : Fin 24)
    (minutes : Fin 60) :
    zoneOffset (mark :: ((zeroPadded 2 hours).toList ++ ':' :: (zeroPadded 2 minutes).toList)) =
      some (factor * (60 * hours + minutes : Nat), []) := by
  have hfront (rest : List Char) : trimFront (mark :: rest) = mark :: rest :=
    trimFront_of_head? fun c hc ↦ Option.some.inj hc ▸ hblank
  have hminutes : pair ((zeroPadded 2 minutes).toList ++ []) = some ((minutes : Nat), []) :=
    pair_zeroPadded (by omega)
  rw [List.append_nil] at hminutes
  simp only [zoneOffset, hfront, hsign, some_bind, pair_zeroPadded (n := hours) (by omega),
    dropWhile_isGap_colon (denotes_zeroPadded 2 minutes), hminutes]
  exact if_pos ⟨hours.isLt, minutes.isLt⟩

/-! ## The moment of a timestamp -/

/-- The years of four digits lie so far within the calendar that no offset leads out of it. -/
theorem inCalendar_of_year {date : Date} (hyear : 0 ≤ date.year ∧ date.year ≤ 9999)
    (time : TimeOfDay) (offset : OffsetMark) :
    inCalendar (instant ⟨date, time.seconds, offset.minutes, false⟩) := by
  have hdays := daysBeforeMonth_le date.year date.month
  have hmonth := date.month_mem
  have hday := date.day_pos
  have hday' := date.day_le
  have hseconds := time.seconds_mem
  have hminutes := offset.minutes_mem
  have hfirst : startOfDay (dayNumber firstYear 1 1) = -8334601228800 := by decide
  have hlast : startOfDay (dayNumber (lastYear + 1) 1 1) = 8210266876800 := by decide
  rw [inCalendar, hfirst, hlast, Bool.and_eq_true, decide_eq_true_iff, decide_eq_true_iff]
  simp only [instant, Date.toDayNumber, dayNumber, yearStart, startOfDay, epoch, daySeconds]
  omega

/-! ## Reading a timestamp -/

variable {date : Date} {time : TimeOfDay} {offset : OffsetMark}

theorem toList_stampText (hyear : date.year = (n : Int)) : (stampText date time offset).toList =
    (zeroPadded 4 n).toList ++ '-' :: ((zeroPadded 2 date.month).toList ++
      '-' :: ((zeroPadded 2 date.day).toList ++ 'T' :: ((zeroPadded 2 time.hour).toList ++
        ':' :: ((zeroPadded 2 time.minute).toList ++ ':' :: ((zeroPadded 2 time.second).toList ++
          offset.text.toList))))) := by
  simp [stampText, Period.text, TimeOfDay.text, hyear]

theorem zoneOffset_text (hmark : offset ≠ .universal) :
    zoneOffset offset.text.toList = some (offset.minutes, []) := by
  cases offset with
  | universal => exact absurd rfl hmark
  | ahead hours minutes =>
    have hread := zoneOffset_signed '+' 1 (by decide) (fun _ ↦ rfl) hours minutes
    simpa [OffsetMark.text, OffsetMark.minutes] using hread
  | behind hours minutes =>
    have hread := zoneOffset_signed '-' (-1) (by decide) (fun _ ↦ rfl) hours minutes
    simpa [OffsetMark.text, OffsetMark.minutes] using hread

theorem mark_cons (c : Char) (rest : List Char) : mark c (c :: rest) = some rest := if_pos rfl

/-- A timestamp is read if each of its parts is, up to what stands between it and the next one. -/
theorem readChars?_of_parts {cs₁ cs₂ cs₃ cs₄ cs₅ cs₆ : List Char} {y o : Int} {m d h i s : Nat}
    (hyear : year cs = some (y, '-' :: cs₁)) (hmonth : small 1 12 cs₁ = some (m, '-' :: cs₂))
    (hday : small 1 31 cs₂ = some (d, 'T' :: cs₃)) (hhour : small 0 23 cs₃ = some (h, ':' :: cs₄))
    (hminute : small 0 59 cs₄ = some (i, ':' :: cs₅))
    (hsecond : small 0 leapSecond cs₅ = some (s, cs₆)) (hoffset : zoneOffset cs₆ = some (o, []))
    (hdate : Date.ofYmd? y m d = some date) (hs : s < leapSecond)
    (hcalendar : inCalendar (instant ⟨date, 3600 * h + 60 * i + s, o, false⟩)) :
    readChars? cs = some ⟨date, 3600 * h + 60 * i + s, o, false⟩ := by
  have hcapped : min s 59 = s := Nat.min_eq_left (Nat.le_of_lt_succ hs)
  have hleap : decide (s = leapSecond) = false := decide_eq_false hs.ne
  simp only [readChars?, some_bind, mark_cons, hyear, hmonth, hday, hhour, hminute, hsecond, hoffset,
    hdate, hcapped, hleap]
  exact if_pos ⟨trivial, hcalendar⟩

theorem readChars?_stampText (hyear : 0 ≤ date.year ∧ date.year ≤ 9999)
    (hmark : offset ≠ .universal) : readChars? (stampText date time offset).toList =
      some ⟨date, time.seconds, offset.minutes, false⟩ := by
  obtain ⟨n, hn⟩ := Int.eq_ofNat_of_zero_le hyear.1
  have hmonth := date.month_mem
  have hday := date.day_pos
  have hday' := date.day_le
  have hhour := time.hour.isLt
  have hminute := time.minute.isLt
  have hsecond := time.second.isLt
  rw [toList_stampText hn]
  apply readChars?_of_parts
  · exact year_zeroPadded (by omega)
  · exact small_zeroPadded hmonth.1 hmonth.2 (by omega)
  · exact small_zeroPadded hday hday' (by omega)
  · exact small_zeroPadded (Nat.zero_le _) (by omega) (by omega)
  · exact small_zeroPadded (Nat.zero_le _) (by omega) (by omega)
  · exact small_zeroPadded (Nat.zero_le _) hsecond.le (by omega)
  · exact zoneOffset_text hmark
  · exact hn ▸ date.ofYmd?_components
  · exact hsecond
  · exact inCalendar_of_year hyear time offset

/-! ## The last character and the blanks around -/

theorem getLast?_zeroPadded (cs : List Char) (width n : Nat) :
    ∃ d, (cs ++ (zeroPadded width n).toList).getLast? = some d ∧ isDigit d := by
  have h := denotes_zeroPadded width n
  have hlast := List.getLast?_eq_some_getLast h.ne_nil
  refine ⟨_, ?_, h.areDigits _ (List.getLast_mem h.ne_nil)⟩
  rw [List.getLast?_append, hlast, Option.some_or]

/-- A timestamp with a sign ends in a digit. -/
theorem getLast?_stampText (date : Date) (time : TimeOfDay) (hmark : offset ≠ .universal) :
    ∃ d, (stampText date time offset).toList.getLast? = some d ∧ isDigit d := by
  cases offset with
  | universal => exact absurd rfl hmark
  | ahead hours minutes | behind hours minutes =>
    simp only [stampText, OffsetMark.text, String.toList_append, ← List.append_assoc]
    exact getLast?_zeroPadded _ _ _

theorem toList_stampText_universal : (stampText date time .universal).toList =
    ((Period.ofDate date).text ++ "T" ++ time.text).toList ++ ['Z'] := by
  rw [stampText, String.toList_append]
  rfl

/-- A `Z` is read as a signed offset of nothing, and a signed offset as it is. -/
theorem spellUniversal_stampText (date : Date) (time : TimeOfDay) (offset : OffsetMark) :
    ∃ signed, signed ≠ .universal ∧ signed.minutes = offset.minutes ∧
      spellUniversal (stampText date time offset).toList = (stampText date time signed).toList := by
  by_cases hmark : offset = .universal
  · refine ⟨.ahead 0 0, by nofun, by rw [hmark]; rfl, ?_⟩
    rw [hmark, toList_stampText_universal, spellUniversal, if_pos List.getLast?_concat,
      List.dropLast_concat, ← String.toList_append]
    rfl
  · refine ⟨offset, hmark, rfl, ?_⟩
    obtain ⟨d, hlast, hd⟩ := getLast?_stampText date time hmark
    rw [spellUniversal, hlast, if_neg]
    rintro h
    rw [Option.some.inj h] at hd
    exact absurd hd (by decide)

theorem isTrimmed_stampText (hyear : 0 ≤ date.year) (time : TimeOfDay) (offset : OffsetMark) :
    IsTrimmed (stampText date time offset) := by
  obtain ⟨n, hn⟩ := Int.eq_ofNat_of_zero_le hyear
  constructor
  · intro c hc
    obtain ⟨d, more, hds, hd⟩ := (denotes_zeroPadded 4 n).exists_cons
    rw [toList_stampText hn, hds] at hc
    exact Option.some.inj hc ▸ not_isBlank_of_isDigit hd
  · intro c hc
    by_cases hmark : offset = .universal
    · rw [hmark, toList_stampText_universal, List.getLast?_concat] at hc
      rw [← Option.some.inj hc]
      decide
    · obtain ⟨d, hlast, hd⟩ := getLast?_stampText date time hmark
      rw [hlast] at hc
      exact Option.some.inj hc ▸ not_isBlank_of_isDigit hd

theorem stampText_ne_empty (date : Date) (time : TimeOfDay) (offset : OffsetMark) :
    stampText date time offset ≠ "" := by
  simp [stampText]

/-- A timestamp is read as the date, the time and the offset that are written in it. -/
theorem read?_stampText (hyear : 0 ≤ date.year ∧ date.year ≤ 9999) (time : TimeOfDay)
    (offset : OffsetMark) {before after : String} (hbefore : isBlankText before)
    (hafter : isBlankText after) : read? (before ++ stampText date time offset ++ after) =
      some ⟨date, time.seconds, offset.minutes, false⟩ := by
  have htrim := trim_surrounded (isTrimmed_stampText hyear.1 time offset)
    (stampText_ne_empty date time offset) hbefore hafter
  obtain ⟨signed, hsigned, hminutes, hspelled⟩ := spellUniversal_stampText date time offset
  rw [read?, ← toList_trim, htrim, hspelled, readChars?_stampText hyear hsigned, hminutes]

end Timestamp

end CloudLedger.Calendar

namespace CloudLedger.Usage

open Calendar Text

theorem periodOfTimestamp_cases (today : Period) (cell : String) :
    periodOfTimestamp today cell = today ∨ ∃ date, periodOfTimestamp today cell = .ofDate date := by
  rw [periodOfTimestamp]
  cases Timestamp.read? cell with
  | none => exact .inl rfl
  | some stamp => exact .inr ⟨stamp.date, rfl⟩

/-- A timestamp of a year with four digits is billed to the date that is written in it, whatever its
offset and with any blanks around it.  Any other text is billed to the reference day or to a date of
the calendar. -/
theorem periodOfTimestamp_written (today : Period) :
    (∀ (date : Date) (time : TimeOfDay) (offset : OffsetMark) (before after : String),
      0 ≤ date.year ∧ date.year ≤ 9999 → isBlankText before → isBlankText after →
      periodOfTimestamp today (before ++ stampText date time offset ++ after) = .ofDate date) ∧
    ∀ cell, periodOfTimestamp today cell = today ∨
      ∃ date, (periodOfTimestamp today cell).toDate? = some date := by
  constructor
  · intro date time offset before after hyear hbefore hafter
    rw [periodOfTimestamp, Timestamp.read?_stampText hyear time offset hbefore hafter,
      Option.map_some, Option.getD_some]
  · intro cell
    apply (periodOfTimestamp_cases today cell).imp_right
    rintro ⟨date, hdate⟩
    exact ⟨date, hdate ▸ Period.toDate?_ofDate date⟩

/-- On the evening of 31 December 9999 in the far west, the year 10000 has begun elsewhere. -/
theorem periodOfTimestamp_written_newYear :
    stampText ⟨9999, 12, 31, by decide⟩ ⟨23, 59, 59⟩ (.behind 23 59) =
        "9999-12-31T23:59:59-23:59" ∧
      periodOfTimestamp ⟨1, 1, 2016⟩ "\t9999-12-31T23:59:59-23:59  " = ⟨31, 12, 9999⟩ := by
  have htext : stampText ⟨9999, 12, 31, by decide⟩ ⟨23, 59, 59⟩ (.behind 23 59) =
      "9999-12-31T23:59:59-23:59" := by
    decide +kernel
  have hperiod := (periodOfTimestamp_written ⟨1, 1, 2016⟩).1 ⟨9999, 12, 31, by decide⟩
    ⟨23, 59, 59⟩ (.behind 23 59) "\t" "  " (by decide) (by decide) (by decide)
  rw [htext] at hperiod
  exact ⟨htext, hperiod⟩

end CloudLedger.Usage
