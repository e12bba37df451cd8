import CloudLedger.Calendar.Zone

/-!
# Rules of time zones

Clocks of a zone show its standard time or, in summer, are put forward by the rules for the two
changes of a year.  All moments of change are given in standard time, so that they do not depend on
each other.

The rules of some zones are built in.  They are meant for the years 1995 to 2099; other zones and
other years take another database.
-/

namespace CloudLedger.Calendar

/-- A Sunday of a month on which clocks change. -/
inductive ChangeDay where
  /-- The first Sunday on or after a day of the month. -/
  | sundayFrom (month day : Nat)
  | lastSunday (month : Nat)

def ChangeDay.inYear (year : Int) : ChangeDay → Int
  | .sundayFrom month day => Calendar.sundayFrom (dayNumber year month day)
  | .lastSunday month => sundayUpTo (dayNumber year month (monthLength year month))

/-- A change of clocks that recurs every year from some year on. -/
structure ClockChange where
  since : Int
  day : ChangeDay
  /-- The minutes of standard time after the start of the day, negative for the evening before. -/
  minutes : Int

/-- How a zone sets its clocks.  Of its changes the latest rule comes first, and before the first
year of its last rule there is no summer time. -/
structure ZoneRules where
  /-- Minutes that standard time is ahead of universal time. -/
  standard : Int
  /-- Minutes that clocks are put forward by in summer. -/
  saving : Int := 0
  starts : List ClockChange := []
  stops : List ClockChange := []

namespace ZoneRules

/-- The moment of a yearly change in seconds of standard time, by the rule in force that year. -/
def moment? (year : Int) (changes : List ClockChange) : Option Int :=
  (changes.find? fun c ↦ c.since ≤ year).map fun c ↦
    startOfDay (c.day.inYear year) + c.minutes * 60

/-- Whether summer time is in force, given the seconds of standard time.  South of the equator it
begins late in a year and ends early in the next. -/
def inSummer (rules : ZoneRules) (seconds : Int) : Bool :=
  let year := yearOfDay (dayOfClock seconds)
  match moment? year rules.starts, moment? year rules.stops with
  | some start, some stop =>
    if start < stop then start ≤ seconds && seconds < stop
    else start ≤ seconds || seconds < stop
  | _, _ => false

def offset (rules : ZoneRules) (instant : Int) : Int :=
  let summer := rules.inSummer (instant + rules.standard * 60)
  (if summer then rules.standard + rules.saving else rules.standard) * 60

end ZoneRules

namespace Zone

def ofRules (name : String) (rules : ZoneRules) : Zone := ⟨name, rules.offset⟩

/-- A zone without summer time. -/
def steady (name : String) (standard : Int) : Zone := ofRules name { standard }

/-- A zone with the changes of the United States, at two o'clock by the clock. -/
def american (name : String) (standard : Int) : Zone := ofRules name {
  standard
  saving := 60
  starts := [⟨2007, .sundayFrom 3 8, 120⟩, ⟨1987, .sundayFrom 4 1, 120⟩]
  stops := [⟨2007, .sundayFrom 11 1, 60⟩, ⟨1987, .lastSunday 10, 60⟩] }

/-- A zone of the European Union: all change at one o'clock universal time.  Until 1995 they did not
go back on the same day. -/
def european (name : String) (standard : Int) (formerStops : List (Int × ChangeDay)) : Zone :=
  ofRules name {
    standard
    saving := 60
    starts := [⟨1981, .lastSunday 3, standard + 60⟩]
    stops := ((1996, .lastSunday 10) :: formerStops).map fun (since, day) ↦
      ⟨since, day, standard + 60⟩ }

/-- A zone of the Australian east coast, which changes back at `stop` minutes of standard time. -/
def australian (name : String) (standard saving stop : Int) : Zone := ofRules name {
  standard
  saving
  starts := [⟨2008, .sundayFrom 10 1, 120⟩, ⟨2001, .lastSunday 10, 120⟩, ⟨2000, .lastSunday 8, 120⟩,
    ⟨1987, .lastSunday 10, 120⟩]
  stops := [⟨2008, .sundayFrom 4 1, stop⟩, ⟨2007, .lastSunday 3, stop⟩,
    ⟨2006, .sundayFrom 4 1, stop⟩, ⟨1996, .lastSunday 3, stop⟩, ⟨1990, .sundayFrom 3 1, stop⟩,
    ⟨1987, .sundayFrom 3 15, stop⟩] }

/-- Newfoundland, which changed at one minute past midnight until the autumn of 2011. -/
def newfoundland : Zone := ofRules "America/St_Johns" {
  standard := -210
  saving := 60
  starts := [⟨2012, .sundayFrom 3 8, 120⟩, ⟨2007, .sundayFrom 3 8, 1⟩, ⟨1989, .sundayFrom 4 1, 1⟩]
  stops := [⟨2011, .sundayFrom 11 1, 60⟩, ⟨2007, .sundayFrom 11 1, -59⟩,
    ⟨1989, .lastSunday 10, -59⟩] }

def all : List Zone :=
  [steady "UTC" 0, steady "GMT" 0, steady "EST" (-300), steady "Etc/GMT+12" (-720),
    steady "Etc/GMT-14" 840, american "US/Pacific" (-480), american "America/Los_Angeles" (-480),
    american "America/New_York" (-300), newfoundland,
    european "Europe/Berlin" 60 [(1981, .lastSunday 9)],
    european "Europe/London" 0 [(1990, .sundayFrom 10 22), (1981, .sundayFrom 10 23)],
    steady "Asia/Kolkata" 330, steady "Asia/Kathmandu" 345, steady "Asia/Tokyo" 540,
    steady "Pacific/Kiritimati" 840, steady "Pacific/Pago_Pago" (-660),
    australian "Australia/Sydney" 600 60 120, australian "Australia/Lord_Howe" 630 30 90]

def builtIn : ZoneDatabase := fun name ↦ all.find? fun z ↦ z.name = name

end Zone

end CloudLedger.Calendar
