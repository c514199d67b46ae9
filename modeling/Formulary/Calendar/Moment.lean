import Formulary.Calendar.Date

/-!
# Moments

A moment is an instant with the zone in which its calendar fields are read. Instants are counted in
seconds and nanoseconds from the start of 1970.
-/

namespace Formulary.Calendar

/-- A time zone: universal time, the local zone (which here agrees with it), or a fixed offset in
seconds with a name that may be empty. -/
inductive Zone where
  | utc
  | here
  | fixed (offset : Int) (name : String)
  deriving DecidableEq, Repr, Inhabited

def Zone.offset : Zone → Int
  | .fixed offset _ => offset
  | _ => 0

def Zone.name : Zone → String
  | .fixed _ name => name
  | _ => "UTC"

structure Moment where
  seconds : Int
  nanos : Nat
  zone : Zone
  deriving DecidableEq, Repr, Inhabited

def second : Int := 1000000000

namespace Moment

/-- The nanoseconds since the start of 1970. -/
def total (t : Moment) : Int := t.seconds * second + t.nanos

/-- The moment a number of nanoseconds after the start of 1970. -/
def ofTotal (ns : Int) (zone : Zone) : Moment :=
  ⟨ns.fdiv second, (ns.fmod second).toNat, zone⟩

/-- The moment of calendar fields in a zone; fields out of range carry over. -/
def ofFields (year month day hour minute sec nanos : Int) (zone : Zone) : Moment :=
  let secs := ((dayNumber year month day * 24 + hour) * 60 + minute) * 60 + sec - zone.offset
  ofTotal (secs * second + nanos) zone

def zero : Moment := ofFields 1 1 1 0 0 0 0 .utc

def clockSeconds (t : Moment) : Int := t.seconds + t.zone.offset

def dayIndex (t : Moment) : Int := t.clockSeconds.fdiv 86400

def date (t : Moment) : Date := dateOfDay t.dayIndex

def secondOfDay (t : Moment) : Nat := (t.clockSeconds.fmod 86400).toNat

def year (t : Moment) : Int := t.date.year

def month (t : Moment) : Nat := t.date.month

/-- The day of the month in the zone. -/
def day (t : Moment) : Nat := t.date.day

def hour (t : Moment) : Nat := t.secondOfDay / 3600

def minute (t : Moment) : Nat := t.secondOfDay / 60 % 60

def sec (t : Moment) : Nat := t.secondOfDay % 60

def weekday (t : Moment) : Nat := Calendar.weekday t.dayIndex

/-- The day of the year in the zone, the first of January being one. -/
def yearDay (t : Moment) : Nat := daysBefore t.year t.month + t.day

/-- The moment a number of nanoseconds later. -/
def add (t : Moment) (ns : Int) : Moment := ofTotal (t.total + ns) t.zone

def addDate (t : Moment) (years months days : Int) : Moment :=
  ofFields (t.year + years) (t.month + months) (t.day + days) t.hour t.minute t.sec t.nanos t.zone

/-- The nanoseconds from one moment to another, kept within 64 bits. -/
def sub (t u : Moment) : Int :=
  max (-9223372036854775808) (min 9223372036854775807 (t.total - u.total))

def before (t u : Moment) : Bool := t.total < u.total

def sameInstant (t u : Moment) : Bool := t.total == u.total

def unixMillis (t : Moment) : Int := t.total.fdiv 1000000

end Moment

end Formulary.Calendar
