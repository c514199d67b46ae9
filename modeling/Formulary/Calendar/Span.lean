import Formulary.Text.Quote
import Formulary.Number.Shortest
import Formulary.Number.Literal

/-!
# Time spans

A time span is a signed 64-bit count of nanoseconds. Literals are written
`[d.]hh:mm[:ss[.fffffff]]`.
-/

namespace Formulary.Calendar

/-- A number of units with a fraction of so many digits, trailing zeros dropped. -/
def withFraction (places n : Nat) : String :=
  let whole := n / Nat.pow 10 places
  let part := n % Nat.pow 10 places
  if part == 0 then whole.repr
  else
    let digits := (Number.padded places part).toList.reverse.dropWhile (· == '0')
    whole.repr ++ "." ++ String.ofList digits.reverse

/-- A time span in hours, minutes and seconds; below one second in the largest unit that gives a
whole part. -/
def spanText (ns : Int) : String :=
  let u := ns.natAbs
  let body :=
    if u == 0 then "0s"
    else if u < 1000 then u.repr ++ "ns"
    else if u < 1000000 then withFraction 3 u ++ "µs"
    else if u < 1000000000 then withFraction 6 u ++ "ms"
    else
      let minutes := u / 60000000000
      let seconds := withFraction 9 (u % 60000000000) ++ "s"
      if minutes == 0 then seconds
      else if minutes < 60 then s!"{minutes}m{seconds}"
      else s!"{minutes / 60}h{minutes % 60}m{seconds}"
  if ns < 0 then "-" ++ body else body

inductive SpanFault where
  | days
  | shape
  | hours
  | minutes
  | fraction
  | seconds
  deriving DecidableEq, Repr

def SpanFault.message (text : Text) (fault : SpanFault) : String :=
  let what :=
    match fault with
    | .days => "bad day count"
    | .shape => "expected hh:mm[:ss]"
    | .hours => "bad hours"
    | .minutes => "bad minutes"
    | .fraction => "bad fraction"
    | .seconds => "bad seconds"
  s!"time span {Text.quote text}: {what}"

/-- The number at the front, after blanks that are not line ends; what follows it does not
matter. -/
def leadingInt? (cs : List Char) : Option Int :=
  let (negative, body) := Number.spanSign (cs.dropWhile fun c => c != '\n' && Text.isSpace c.toNat)
  let digits := body.takeWhile Char.isDigit
  if digits.isEmpty then none
  else
    let n : Int := if negative then -(Number.digitsValue digits) else Number.digitsValue digits
    if -9223372036854775808 ≤ n && n ≤ 9223372036854775807 then some n else none

def leadingUpTo? (bound : Int) (cs : List Char) : Option Int :=
  (leadingInt? cs).filter (· ≤ bound)

/-- Splits at the first occurrence of a character. -/
def cutAt (mark : Char) (cs : List Char) : List Char × Option (List Char) :=
  match cs.dropWhile (· != mark) with
  | [] => (cs, none)
  | _ :: rest => (cs.takeWhile (· != mark), some rest)

/-- The day count in front of the first point, when that point comes before the first colon. -/
def readDays (cs : List Char) : Except SpanFault (Int × List Char) :=
  match cutAt '.' cs with
  | (front, some rest) =>
    if rest.contains ':' && !front.contains ':' then
      match leadingInt? front with
      | some days => .ok (days, rest)
      | none => .error .days
    else .ok (0, cs)
  | _ => .ok (0, cs)

/-- The fraction of a second in nanoseconds, written with one to seven digits. -/
def readFraction (cs : List Char) : Except SpanFault Int :=
  let width := (String.ofList cs).utf8ByteSize
  if width == 0 || 7 < width then .error .fraction
  else
    match leadingInt? (cs ++ List.replicate (7 - width) '0') with
    | some n => .ok (n * 100)
    | none => .error .fraction

def readSeconds (cs : List Char) : Except SpanFault (Int × Int) := do
  let (whole, part) := cutAt '.' cs
  let nanos ← part.elim (.ok 0) readFraction
  match leadingUpTo? 59 whole with
  | some s => .ok (s, nanos)
  | none => .error .seconds

def splitAt (mark : Char) (cs : List Char) : List (List Char) :=
  cs.foldr (fun c parts =>
    if c == mark then [] :: parts
    else
      match parts with
      | part :: rest => (c :: part) :: rest
      | [] => [[c]]) [[]]

/-- Hours, minutes and optional seconds, each with its range. -/
def readClock (cs : List Char) : Except SpanFault (Int × Int × Int × Int) := do
  let read (h m : List Char) : Except SpanFault (Int × Int) :=
    match leadingUpTo? 23 h with
    | none => .error .hours
    | some hours =>
      match leadingUpTo? 59 m with
      | none => .error .minutes
      | some minutes => .ok (hours, minutes)
  match splitAt ':' cs with
  | [h, m] =>
    let (hours, minutes) ← read h m
    .ok (hours, minutes, 0, 0)
  | [h, m, s] =>
    let (hours, minutes) ← read h m
    let (seconds, nanos) ← readSeconds s
    .ok (hours, minutes, seconds, nanos)
  | _ => .error .shape

/-- Reads the body of a time span literal as nanoseconds, modulo 64 bits. -/
def readSpan (text : Text) : Except SpanFault Int := do
  let (days, rest) ← readDays text.toString.toList
  let (hours, minutes, seconds, nanos) ← readClock rest
  let total := (((days * 24 + hours) * 60 + minutes) * 60 + seconds) * 1000000000 + nanos
  .ok (total.bmod (Nat.pow 2 64))

end Formulary.Calendar
