/-!
# Calendar dates

The proleptic Gregorian calendar: dates as counts of days since the first of January 1970, in both
directions, with overflowing months and days carried over.
-/

namespace Formulary.Calendar

/-- Whether a year has a twenty-ninth of February. -/
def isLeap (year : Int) : Bool := year % 4 == 0 && (year % 100 != 0 || year % 400 == 0)

structure Date where
  year : Int
  month : Nat
  day : Nat
  deriving DecidableEq, Repr, Inhabited

/-- The days of the year before the first of a month, in a year that is not a leap year. -/
def daysBeforeMonth : Nat → Nat
  | 1 => 0 | 2 => 31 | 3 => 59 | 4 => 90 | 5 => 120 | 6 => 151
  | 7 => 181 | 8 => 212 | 9 => 243 | 10 => 273 | 11 => 304 | 12 => 334
  | 0 => 0 | _ => 365

def daysBefore (year : Int) (month : Nat) : Nat :=
  daysBeforeMonth month + if isLeap year && 2 < month then 1 else 0

def daysIn (year : Int) (month : Nat) : Nat :=
  if month == 2 && isLeap year then 29 else daysBeforeMonth (month + 1) - daysBeforeMonth month

/-- The days from the first of January of year 1 to the first of January of a year. -/
def daysBeforeYear (year : Int) : Int :=
  let y := year - 1
  365 * y + y.fdiv 4 - y.fdiv 100 + y.fdiv 400

/-- The day number of the first of January 1970 counted from the first of January of year 1. -/
def epochDay : Int := 719162

/-- The day number of a year, month and day counted from 1970; months and days out of range carry
over. -/
def dayNumber (year month day : Int) : Int :=
  let y := year + (month - 1).fdiv 12
  let m := ((month - 1).fmod 12).toNat + 1
  daysBeforeYear y + daysBefore y m + (day - 1) - epochDay

/-- The year a day number counted from year 1 falls in. -/
def yearOfDay (n : Int) : Int :=
  let c400 := n.fdiv 146097
  let r400 := n.fmod 146097
  let c100 := min (r400 / 36524) 3
  let r100 := r400 - c100 * 36524
  let c4 := r100 / 1461
  let r4 := r100 % 1461
  let c1 := min (r4 / 365) 3
  400 * c400 + 100 * c100 + 4 * c4 + c1 + 1

/-- The month in which a day of the year falls, the day counted from zero. -/
def monthOfDay (year : Int) (yearDay : Nat) : Nat :=
  (((List.range 12).map (· + 1)).reverse.find? fun m => daysBefore year m ≤ yearDay).getD 1

def dateOfDay (n : Int) : Date :=
  let day := n + epochDay
  let year := yearOfDay day
  let yearDay := (day - daysBeforeYear year).toNat
  let month := monthOfDay year yearDay
  ⟨year, month, yearDay - daysBefore year month + 1⟩

/-- The day of the week of a day number counted from 1970; Sunday is zero. -/
def weekday (n : Int) : Nat := ((n + 4).fmod 7).toNat

def monthNames : List String :=
  ["January", "February", "March", "April", "May", "June", "July", "August", "September", "October",
    "November", "December"]

/-- The English names of the days of the week. -/
def weekdayNames : List String :=
  ["Sunday", "Monday", "Tuesday", "Wednesday", "Thursday", "Friday", "Saturday"]

def monthName (n : Int) : String :=
  match monthNames[(n - 1).toNat]? with
  | some name => if 1 ≤ n then name else s!"%!Month({n})"
  | none => s!"%!Month({n})"

def weekdayName (n : Int) : String :=
  match weekdayNames[n.toNat]? with
  | some name => if 0 ≤ n then name else s!"%!Weekday({n})"
  | none => s!"%!Weekday({n})"

end Formulary.Calendar
