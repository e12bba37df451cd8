import CloudLedger.Calendar.Date
import CloudLedger.Text.Blank
import CloudLedger.Text.Numeral

/-!
# Timestamps

Line items of daily exports carry timestamps such as `2016-02-01T00:00:00-08:00`: a date, a time of
day and the offset of the clock it was read from.  The reader is generous about blanks before
numbers, about the count of their digits and about what stands between the hours and minutes of an
offset; whether there is such a moment within the calendar it checks strictly.
-/

namespace CloudLedger.Calendar

open Text

/-- A moment as a clock with a known offset showed it. -/
structure Timestamp where
  date : Date
  /-- Seconds since midnight. -/
  time : Int
  /-- Minutes that the clock was ahead of universal time. -/
  offset : Int
  /-- Whether the clock showed a sixtieth second, which counts as the second before it. -/
  isLeap : Bool

namespace Timestamp

/-- The moment in seconds since the epoch. -/
def instant (t : Timestamp) : Int :=
  startOfDay t.date.toDayNumber + t.time - t.offset * 60

/-- The digits at the front, as many as there are up to `most`; at least one is needed. -/
def digits (most : Nat) (cs : List Char) : Option (Nat × List Char) :=
  let ds := (cs.take most).takeWhile isDigit
  if ds = [] then none else some (digitsValue ds, cs.drop ds.length)

/-- A number of one or two digits between two bounds, with any blanks before it. -/
def small (low high : Nat) (cs : List Char) : Option (Nat × List Char) := do
  let (n, rest) ← digits 2 (trimFront cs)
  if low ≤ n ∧ n ≤ high then some (n, rest) else none

/-- A year: four digits at most, or any number of digits after a sign. -/
def year (cs : List Char) : Option (Int × List Char) :=
  match trimFront cs with
  | '-' :: ds => (digits ds.length ds).map fun (n, rest) ↦ (-(n : Int), rest)
  | '+' :: ds => (digits ds.length ds).map fun (n, rest) ↦ ((n : Int), rest)
  | ds => (digits 4 ds).map fun (n, rest) ↦ ((n : Int), rest)

def mark (c : Char) : List Char → Option (List Char)
  | d :: rest => if d = c then some rest else none
  | [] => none

def pair : List Char → Option (Nat × List Char)
  | a :: b :: rest => if isDigit a ∧ isDigit b then some (digitsValue [a, b], rest) else none
  | _ => none

/-- Whether a character may stand between the hours and minutes of an offset. -/
def isGap (c : Char) : Bool := c = ':' || isBlank c

/-- The sign of an offset; the minus sign of typography counts as one. -/
def sign : List Char → Option (Int × List Char)
  | c :: rest =>
    if c = '+' then some (1, rest)
    else if c = '-' ∨ c = '\u2212' then some (-1, rest)
    else none
  | [] => none

/-- An offset in minutes: a sign, two digits of hours and two of minutes, less than a day. -/
def zoneOffset (cs : List Char) : Option (Int × List Char) := do
  let (s, rest) ← sign (trimFront cs)
  let (hours, rest) ← pair rest
  let (minutes, rest) ← pair (rest.dropWhile isGap)
  if hours < 24 ∧ minutes < 60 then some (s * (60 * hours + minutes : Nat), rest) else none

/-- The last second of a minute that has a leap second. -/
def leapSecond : Nat := 60

/-- The first and the last moment of the calendar. -/
def inCalendar (seconds : Int) : Bool :=
  startOfDay (dayNumber firstYear 1 1) ≤ seconds
    && seconds < startOfDay (dayNumber (lastYear + 1) 1 1)

/-- Read a timestamp that fills the whole text. -/
def readChars? (cs : List Char) : Option Timestamp := do
  let (year, rest) ← year cs
  let (month, rest) ← small 1 12 (← mark '-' rest)
  let (day, rest) ← small 1 31 (← mark '-' rest)
  let (hour, rest) ← small 0 23 (← mark 'T' rest)
  let (minute, rest) ← small 0 59 (← mark ':' rest)
  let (second, rest) ← small 0 leapSecond (← mark ':' rest)
  let (offset, rest) ← zoneOffset rest
  let date ← Date.ofYmd? year month day
  let stamp : Timestamp :=
    ⟨date, 3600 * hour + 60 * minute + min second 59, offset, second = leapSecond⟩
  if rest = [] ∧ inCalendar stamp.instant then some stamp else none

/-- Write an offset of nothing for a final `Z`. -/
def spellUniversal (cs : List Char) : List Char :=
  if cs.getLast? = some 'Z' then cs.dropLast ++ "+00:00".toList else cs

/-- Read a timestamp, with any blanks around it; a final `Z` stands for universal time. -/
def read? (s : String) : Option Timestamp := readChars? (spellUniversal (trimChars s.toList))

end Timestamp

end CloudLedger.Calendar
