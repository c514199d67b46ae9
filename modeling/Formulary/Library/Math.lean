import Formulary.Library.Basic

/-!
# The mathematics library

Rounding, powers, logarithms, trigonometry, least and greatest values, and statistics of any number
of arguments.
-/

namespace Formulary.Library.Math

open Library

/-- The smaller of two doubles; what is no number wins, and minus zero is below zero. -/
def least (a b : Float) : Float :=
  if a.isNaN then a
  else if b.isNaN then b
  else if a == 0 && b == 0 then if a.toBits == 0 then b else a
  else if b < a then b else a

def greatest (a b : Float) : Float :=
  if a.isNaN then a
  else if b.isNaN then b
  else if a == 0 && b == 0 then if a.toBits == 0 then a else b
  else if a < b then b else a

def doubleSign (x : Float) : Int := if x < 0 then -1 else if 0 < x then 1 else 0

/-- A double rounded to a number of digits, halves to the even neighbour; one too large to be
rounded stays. -/
def roundDigits (x : Float) (digits : Int) : Float :=
  if digits ≤ 0 then Number.floatRoundEven x
  else
    let p := Number.floatPower 10 (Float.ofInt digits)
    let r := Number.floatRoundEven (x * p) / p
    if r.isNaN || r.isInf then x else r

def sum (xs : List Float) : Float := xs.foldl (· + ·) 0

def noValues : Failure := .plain "no values"

def mean (xs : List Float) : Except Failure Float :=
  if xs.isEmpty then .error noValues else .ok (sum xs / Float.ofNat xs.length)

/-- Whether one double stands before another in order; what is no number comes first. -/
def sortedBefore (a b : Float) : Bool := !((b.isNaN && !a.isNaN) || b < a)

/-- The middle value, or the mean of the two middle values. -/
def median (xs : List Float) : Except Failure Float :=
  if xs.isEmpty then .error noValues
  else
    let sorted := xs.mergeSort sortedBefore
    let mid := sorted.length / 2
    if sorted.length % 2 == 0 then .ok ((sorted.getD (mid - 1) 0 + sorted.getD mid 0) / 2)
    else .ok (sorted.getD mid 0)

/-- The mean square of the distances from the mean. -/
def variance (xs : List Float) : Except Failure Float := do
  let m ← mean xs
  .ok (sum (xs.map fun x => (x - m) * (x - m)) / Float.ofNat xs.length)

def real (f : Float → Float) : Function :=
  total [.double] .double fun a => .double (f (doubleArg a 0))

def reals (f : Float → Float → Float) : Function :=
  total [.double, .double] .double fun a => .double (f (doubleArg a 0) (doubleArg a 1))

/-- A function of one decimal that keeps its storage if it changes nothing. -/
def exact (f : Decimal → Decimal) : Function :=
  total [.decimal] .decimal fun a =>
    let d := decimalArg a 0
    let r := f d
    if r == d then arg a 0 else .ofDecimal r

def integers (k : IntKind) (f : Int → Int → Int) : Function :=
  total [.int k, .int k] (.int k) fun a => .ofInt k (f (intArg a 0) (intArg a 1))

/-- A choice between two decimals: the second if the order says so. -/
def decimals (wanted : Ordering) : Function :=
  total [.decimal, .decimal] .decimal fun a =>
    if Decimal.compare (decimalArg a 1) (decimalArg a 0) == wanted then arg a 1 else arg a 0

def statistic (f : List Float → Except Failure Float) : Function :=
  fallibleVariadic [.slice .double] .double fun a =>
    (f ((itemsArg a 0).map Value.toDouble)).map .double

/-- The absolute value of an integer; the least one stays as it is. -/
def absolute (k : IntKind) : Function :=
  total [.int k] (.int k) fun a => .ofInt k (intArg a 0).natAbs

def functions : List (String × Function) :=
  [("Abs", absolute .int), ("Abs", absolute .long), ("Abs", real Float.abs),
    ("Abs", exact Decimal.abs), ("Sign", total [.int .int] (.int .int) fun a =>
      int (intArg a 0).sign),
    ("Sign", total [.int .long] (.int .int) fun a => int (intArg a 0).sign),
    ("Sign", total [.double] (.int .int) fun a => int (doubleSign (doubleArg a 0))),
    ("Sign", total [.decimal] (.int .int) fun a => int (decimalArg a 0).sign),
    ("Ceiling", real Float.ceil), ("Ceiling", exact Decimal.ceiling),
    ("Floor", real Float.floor), ("Floor", exact Decimal.floor),
    ("Truncate", real Number.floatTruncate), ("Truncate", exact fun d => d.truncate 0),
    ("Round", real Number.floatRoundEven),
    ("Round", total [.double, .int .int] .double fun a =>
      .double (roundDigits (doubleArg a 0) (intArg a 1))),
    ("Round", total [.decimal, .int .int] .decimal fun a =>
      let d := decimalArg a 0
      let r := d.roundEven (intArg a 1)
      if r == d then arg a 0 else .ofDecimal r),
    ("Sqrt", real Float.sqrt), ("Pow", reals Number.floatPower), ("Exp", real Float.exp),
    ("Log", real Float.log), ("Log", reals fun x base => x.log / base.log),
    ("Log10", real Float.log10), ("Sin", real Float.sin), ("Cos", real Float.cos),
    ("Tan", real Float.tan), ("Asin", real Float.asin), ("Acos", real Float.acos),
    ("Atan", real Float.atan), ("Atan2", reals Float.atan2), ("Sinh", real Float.sinh),
    ("Cosh", real Float.cosh), ("Tanh", real Float.tanh), ("Min", integers .int min),
    ("Min", integers .long min), ("Min", reals least), ("Min", decimals .lt),
    ("Max", integers .int max), ("Max", integers .long max), ("Max", reals greatest),
    ("Max", decimals .gt), ("Clamp", total [.double, .double, .double] .double fun a =>
      .double (least (greatest (doubleArg a 0) (doubleArg a 1)) (doubleArg a 2))),
    ("Sum", variadic [.slice .double] .double fun a =>
      .double (sum ((itemsArg a 0).map Value.toDouble))),
    ("Avg", statistic mean), ("Median", statistic median), ("Variance", statistic variance),
    ("StdDev", statistic fun xs => (variance xs).map Float.sqrt)]

def library : Library :=
  { name := "Math"
    functions := functions
    constants := [("PI", .double (Float.ofBits 0x400921FB54442D18)),
      ("E", .double (Float.ofBits 0x4005BF0A8B145769))] }

end Formulary.Library.Math
