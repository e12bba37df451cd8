import CloudLedger.Calendar.Date

/-!
# Time zones

A time zone says how far its clocks are ahead of universal time at every moment.  Which zones there
are is left to a database, which is asked for them by name.
-/

namespace CloudLedger.Calendar

structure Zone where
  name : String
  /-- The seconds that clocks are ahead of universal time at a moment, which is given in seconds
  since the epoch. -/
  offset : Int → Int

/-- The zones that can be named. -/
abbrev ZoneDatabase := String → Option Zone

/-- What a clock in the zone shows at a moment, in seconds since the epoch as the clock has it. -/
def Zone.clock (z : Zone) (instant : Int) : Int := instant + z.offset instant

end CloudLedger.Calendar
