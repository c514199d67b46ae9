import Formulary.Library.Basic

/-!
# The calendar library

Dates are read and built in parts, moved by units of the calendar or of the clock, and measured in
them. Units are named year, month, day, hour, minute, second and millisecond, in any letter case.
-/

namespace Formulary.Library.Dates

open Calendar Library

inductive TimeUnit where
  | year
  | month
  | day
  | hour
  | minute
  | second
  | millisecond
  deriving DecidableEq, Repr

namespace TimeUnit

/-- The units with their names, the longest first. -/
def table : List (TimeUnit × String) :=
  [(year, "year"), (month, "month"), (day, "day"), (hour, "hour"), (minute, "minute"),
    (second, "second"), (millisecond, "millisecond")]

def ofName (name : Text) : Except Failure TimeUnit :=
  match table.find? fun u => Text.ofString u.2 == Text.simpleLower name with
  | some u => .ok u.1
  | none => .error (.plain s!"unsupported unit {Text.quote name}")

/-- The nanoseconds of a unit of the clock; a day counts as 24 hours. -/
def nanos : TimeUnit → Int
  | .hour => 3600 * Calendar.second
  | .minute => 60 * Calendar.second
  | .second => Calendar.second
  | .millisecond => 1000000
  | _ => 86400 * Calendar.second

end TimeUnit

/-- A date moved by units: years, months and days of the calendar, or a span of the clock modulo 64
bits. -/
def add (t : Moment) (n : Int) : TimeUnit → Moment
  | .year => t.addDate n 0 0
  | .month => t.addDate 0 n 0
  | .day => t.addDate 0 0 n
  | u => t.add (IntKind.long.wrap (n * u.nanos))

/-- The months from one date to another; a month begun but not completed does not count when going
forward. -/
def monthsBetween (a b : Moment) : Int :=
  let total := (b.year - a.year) * 12 + ((b.month : Int) - a.month)
  if b.day < a.day && 0 < total then total - 1 else total

/-- The whole units from one date to another. -/
def difference (a b : Moment) : TimeUnit → Int
  | .year => (monthsBetween a b).tdiv 12
  | .month => monthsBetween a b
  | u => (b.sub a).tdiv u.nanos

/-- The start of the unit a date falls in. -/
def startOf (t : Moment) : TimeUnit → Moment
  | .year => .ofFields t.year 1 1 0 0 0 0 t.zone
  | .month => .ofFields t.year t.month 1 0 0 0 0 t.zone
  | .day => .ofFields t.year t.month t.day 0 0 0 0 t.zone
  | .hour => .ofFields t.year t.month t.day t.hour 0 0 0 t.zone
  | .minute => .ofFields t.year t.month t.day t.hour t.minute 0 0 t.zone
  | .second => .ofFields t.year t.month t.day t.hour t.minute t.sec 0 t.zone
  | .millisecond =>
    .ofFields t.year t.month t.day t.hour t.minute t.sec
      ((t.nanos : Int) / 1000000 * 1000000) t.zone

/-- The last millisecond of the unit a date falls in. -/
def endOf (t : Moment) (u : TimeUnit) : Moment := (add (startOf t u) 1 u).add (-1000000)

def part (f : Moment → Int) : Function :=
  total [.dateTime] (.int .int) fun a => int (f (momentArg a 0))

def unitArg (args : List Value) (i : Nat) : Except Failure TimeUnit :=
  TimeUnit.ofName (textArg args i)

def inUnit (u : TimeUnit) (n : Int) : Float := Standard.inUnits u.nanos.toNat n

def parse (text pattern : Text) : Except Failure Value :=
  match readDate pattern text with
  | .ok t => .ok (.dateTime t)
  | .error (.reading layout value fault) =>
    .error (.badDate (DateFault.message pattern (.reading layout value fault)))
  | .error fault => .error (.plain (fault.message pattern))

def functions (now : Moment) : List (String × Function) :=
  [("Now", total [] .dateTime fun _ => .dateTime now),
    ("Today", total [] .dateTime fun _ => .dateTime (startOf now .day)),
    ("Date", total [.int .int, .int .int, .int .int] .dateTime fun a =>
      .dateTime (.ofFields (intArg a 0) (intArg a 1) (intArg a 2) 0 0 0 0 .utc)),
    ("Date", total (List.replicate 6 (.int .int)) .dateTime fun a =>
      .dateTime (.ofFields (intArg a 0) (intArg a 1) (intArg a 2) (intArg a 3) (intArg a 4)
        (intArg a 5) 0 .utc)),
    ("Year", part Moment.year), ("Month", part fun t => t.month), ("Day", part fun t => t.day),
    ("Hour", part fun t => t.hour), ("Minute", part fun t => t.minute),
    ("Second", part fun t => t.sec), ("DayOfWeek", part fun t => t.weekday),
    ("DayOfYear", part fun t => t.yearDay), ("DaysInMonth",
      total [.int .int, .int .int] (.int .int) fun a =>
      int (Moment.ofFields (intArg a 0) (intArg a 1 + 1) 0 0 0 0 0 .utc).day),
    ("Add", fallible [.dateTime, .int .int, .string] .dateTime fun a => do
      let u ← unitArg a 2
      .ok (.dateTime (add (momentArg a 0) (intArg a 1) u))),
    ("Diff", fallible [.dateTime, .dateTime, .string] (.int .long) fun a => do
      let u ← unitArg a 2
      .ok (long (difference (momentArg a 0) (momentArg a 1) u))),
    ("StartOf", fallible [.dateTime, .string] .dateTime fun a => do
      let u ← unitArg a 1
      .ok (.dateTime (startOf (momentArg a 0) u))),
    ("EndOf", fallible [.dateTime, .string] .dateTime fun a => do
      let u ← unitArg a 1
      .ok (.dateTime (endOf (momentArg a 0) u))),
    ("Format", fallible [.dateTime, .string] .string fun a =>
      match layoutOf (textArg a 1) with
      | .ok layout => .ok (.string ((momentArg a 0).format layout))
      | .error fault => .error (.plain (fault.message (textArg a 1)))),
    ("Parse", fallible [.string, .string] .dateTime fun a => parse (textArg a 0) (textArg a 1)),
    ("FromUnixMillis", total [.int .long] .dateTime fun a =>
      .dateTime (.ofTotal (intArg a 0 * 1000000) .utc)),
    ("ToUnixMillis", total [.dateTime] (.int .long) fun a => long (momentArg a 0).unixMillis),
    ("TotalDays", total [.timeSpan] .double fun a => .double (inUnit .hour (intArg a 0) / 24)),
    ("TotalHours", total [.timeSpan] .double fun a => .double (inUnit .hour (intArg a 0))),
    ("TotalMinutes", total [.timeSpan] .double fun a => .double (inUnit .minute (intArg a 0))),
    ("TotalSeconds", total [.timeSpan] .double fun a => .double (inUnit .second (intArg a 0))),
    ("TotalMilliseconds", total [.timeSpan] (.int .long) fun a => long ((intArg a 0).tdiv 1000000))]

def library (now : Moment) : Library := { name := "DateTime", functions := functions now }

end Formulary.Library.Dates
