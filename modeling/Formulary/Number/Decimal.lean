import Formulary.Number.Literal
import Formulary.Number.Shortest

/-!
# Decimal numbers

A decimal is `coefficient · 10 ^ exponent` with an integer coefficient of any size. Sums,
differences and products are exact; quotients are rounded to sixteen places, halves away from zero.
-/

namespace Formulary

structure Decimal where
  coefficient : Int
  exponent : Int
  deriving DecidableEq, Repr, Inhabited

namespace Decimal

def divisionPlaces : Nat := 16

def ofInt (n : Int) : Decimal := ⟨n, 0⟩

def ofNumeral (n : Number.Numeral) : Decimal :=
  ⟨if n.negative then -(n.coefficient : Int) else n.coefficient, n.exponent⟩

def read? (s : String) : Option Decimal := (Number.Numeral.read? s.toList).map ofNumeral

/-- The same number at another exponent; places that no longer fit are cut off. -/
def rescale (d : Decimal) (exponent : Int) : Decimal :=
  if d.exponent ≤ exponent then
    ⟨d.coefficient.tdiv (Nat.pow 10 (exponent - d.exponent).toNat), exponent⟩
  else ⟨d.coefficient * Nat.pow 10 (d.exponent - exponent).toNat, exponent⟩

/-- The coefficients of two decimals at their lower exponent. -/
def align (a b : Decimal) : Int × Int × Int :=
  let e := min a.exponent b.exponent
  ((a.rescale e).coefficient, (b.rescale e).coefficient, e)

instance : Add Decimal where
  add a b := let (x, y, e) := align a b; ⟨x + y, e⟩

instance : Sub Decimal where
  sub a b := let (x, y, e) := align a b; ⟨x - y, e⟩

instance : Mul Decimal where
  mul a b := ⟨a.coefficient * b.coefficient, a.exponent + b.exponent⟩

instance : Neg Decimal where
  neg a := ⟨-a.coefficient, a.exponent⟩

/-- Which of two decimals is the larger number. -/
def compare (a b : Decimal) : Ordering :=
  let (x, y, _) := align a b
  if x < y then .lt else if x = y then .eq else .gt

def isZero (d : Decimal) : Bool := d.coefficient == 0

def isNegative (d : Decimal) : Bool := d.coefficient < 0

def sign (d : Decimal) : Int := d.coefficient.sign

def abs (d : Decimal) : Decimal := ⟨d.coefficient.natAbs, d.exponent⟩

/-- The quotient cut off at a number of places, and the remainder. -/
def quoRem (a b : Decimal) (places : Nat) : Decimal × Decimal :=
  let e := a.exponent - b.exponent + places
  let (x, y, rest) :=
    if e < 0 then (a.coefficient, b.coefficient * Nat.pow 10 (-e).toNat, a.exponent)
    else (a.coefficient * Nat.pow 10 e.toNat, b.coefficient, b.exponent - places)
  (⟨x.tdiv y, -places⟩, ⟨x.tmod y, rest⟩)

/-- The quotient rounded to a number of places, halves away from zero. -/
def divRound (a b : Decimal) (places : Nat) : Decimal :=
  let (q, r) := quoRem a b places
  let twice : Decimal := ⟨2 * r.coefficient.natAbs, r.exponent + places⟩
  match compare twice b.abs with
  | .lt => q
  | _ => if a.sign * b.sign < 0 then q - ⟨1, -places⟩ else q + ⟨1, -places⟩

def divide (a b : Decimal) : Decimal := divRound a b divisionPlaces

/-- The remainder of a division toward zero. -/
def modulo (a b : Decimal) : Decimal := (quoRem a b 0).2

def powNat (d : Decimal) (n : Nat) : Decimal :=
  if n = 0 then ⟨1, 0⟩
  else
    let half := powNat d (n / 2)
    if n % 2 = 0 then half * half else half * half * d
termination_by n
decreasing_by omega

/-- An integer power; a power of zero is zero, and a negative power is a rounded quotient. -/
def pow (d : Decimal) (n : Int) : Decimal :=
  if d.isZero then ⟨0, 0⟩
  else if n < 0 then divRound ⟨1, 0⟩ (powNat d n.natAbs) divisionPlaces
  else powNat d n.toNat

/-- The largest whole number that is not above. -/
def floor (d : Decimal) : Decimal :=
  if 0 ≤ d.exponent then d else ⟨d.coefficient.fdiv (Nat.pow 10 (-d.exponent).toNat), 0⟩

/-- The smallest whole number that is not below. -/
def ceiling (d : Decimal) : Decimal :=
  if 0 ≤ d.exponent then d else ⟨-((-d.coefficient).fdiv (Nat.pow 10 (-d.exponent).toNat)), 0⟩

/-- The decimal cut off at a number of places. -/
def truncate (d : Decimal) (places : Int) : Decimal :=
  if 0 ≤ places && d.exponent < -places then d.rescale (-places) else d

/-- The decimal rounded to a number of places, halves away from zero. -/
def round (d : Decimal) (places : Int) : Decimal :=
  if d.exponent = -places then d
  else
    let c := (d.rescale (-places - 1)).coefficient
    ⟨(if c < 0 then c - 5 else c + 5).tdiv 10, -places⟩

/-- The decimal rounded to a number of places, halves to the even neighbour. -/
def roundEven (d : Decimal) (places : Int) : Decimal :=
  let r := d.round places
  if compare (d - r).abs ⟨5, -places - 1⟩ == .eq && r.coefficient % 2 != 0 then
    ⟨if r.coefficient < 0 then r.coefficient + 1 else r.coefficient - 1, r.exponent⟩
  else r

def wholePart (d : Decimal) : Int := (d.rescale 0).coefficient

def toDouble (d : Decimal) : Float :=
  let (n, m) := Number.scaleTen d.coefficient.natAbs 1 d.exponent
  Number.doubleOfFraction (d.coefficient < 0) n m

/-- The decimal of the shortest digits of a finite number of a binary format. -/
def ofUnpacked? (f : Number.Format) : Number.Unpacked → Option Decimal
  | .finite negative m e =>
    if m == 0 then some ⟨0, 0⟩
    else
      let d := Number.shortestDigits f m e
      some ⟨if negative then -(d.value : Int) else d.value, d.point - d.count⟩
  | _ => none

/-- Plain digits without an exponent and without zeros at the end of the fraction. -/
def text (d : Decimal) : String :=
  if 0 ≤ d.exponent then toString (d.rescale 0).coefficient
  else
    let places := (-d.exponent).toNat
    let digits := Number.padded (places + 1) d.coefficient.natAbs
    let whole := digits.toList.take (digits.length - places)
    let part := (digits.toList.drop (digits.length - places)).reverse.dropWhile
      (· == '0') |>.reverse
    (if d.coefficient < 0 then "-" else "") ++ String.ofList whole ++
      (if part.isEmpty then "" else "." ++ String.ofList part)

end Decimal

end Formulary
