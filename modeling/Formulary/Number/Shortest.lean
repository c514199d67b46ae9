import Formulary.Number.Binary

/-!
# Shortest decimal spelling of binary numbers

The decimal spelling of a floating-point number is the one with the fewest digits that reads back as
the same number, and of those the nearest. Small and large exponents are written in scientific
notation.
-/

namespace Formulary.Number

structure Digits where
  value : Nat
  count : Nat
  point : Int
  deriving DecidableEq, Repr

/-- The number of decimal digits of a natural. -/
def digitCount (n : Nat) : Nat := (Nat.toDigits 10 n).length

/-- The exponent just above a positive fraction: `10 ^ (point - 1) ≤ num / den < 10 ^ point`. -/
def decimalPoint (num den : Nat) : Int :=
  let guess := (digitCount num : Int) - digitCount den
  let (n, d) := scaleTen num den (-guess)
  if d ≤ n then guess + 1 else guess

/-- Removes the zeros at the end of the digits. -/
def trimZeros : Nat → Nat → Nat → Nat × Nat
  | 0, v, n => (v, n)
  | fuel + 1, v, n => if v % 10 == 0 && 1 < n then trimZeros fuel (v / 10) (n - 1) else (v, n)

/-- The ends of the interval of reals that round to `m · 2 ^ e`, in quarters of `2 ^ e`. -/
def roundingEnds (f : Format) (m : Nat) (e : Int) : Nat × Nat :=
  let low := if m == Nat.pow 2 (f.mantissaBits - 1) && f.minExponent < e then
    4 * m - 1 else 4 * m - 2
  (low, 4 * m + 2)

/-- The digits of one length that read back as `m · 2 ^ e`, if there are any. -/
def digitsOfLength? (f : Format) (m : Nat) (e : Int) (point : Int) (length : Nat) : Option Digits :=
  let unit := point - length
  let (low, high) := roundingEnds f m e
  let scaled (quarters : Nat) : Nat × Nat :=
    let (n, d) := scaleTwo quarters 1 (e - 2)
    scaleTen n d (-unit)
  let (vn, vd) := scaled (4 * m)
  let (ln, ld) := scaled low
  let (hn, hd) := scaled high
  let closed := m % 2 == 0
  let fits (c : Nat) : Bool :=
    if closed then ln ≤ c * ld && c * hd ≤ hn else ln < c * ld && c * hd < hn
  let below := vn / vd
  let above := below + 1
  let twice := 2 * (vn % vd)
  let pick : Option Nat :=
    if vn % vd == 0 then some below
    else
      match fits below, fits above with
      | true, true =>
        if twice < vd then some below
        else if vd < twice then some above
        else if below % 2 == 0 then some below else some above
      | true, false => some below
      | false, true => some above
      | false, false => none
  pick.bind fun c =>
    if c == 0 then none
    else
      let count := digitCount c
      let (v, n) := trimZeros count c count
      some ⟨v, n, unit + count⟩

/-- The first length from a range that has digits which read back. -/
def shortestFrom (f : Format) (m : Nat) (e : Int) (point : Int) : Nat → Nat → Digits
  | 0, length => (digitsOfLength? f m e point length).getD ⟨0, 1, 1⟩
  | tries + 1, length =>
    match digitsOfLength? f m e point length with
    | some d => d
    | none => shortestFrom f m e point tries (length + 1)

/-- The shortest digits of `m · 2 ^ e`. -/
def shortestDigits (f : Format) (m : Nat) (e : Int) : Digits :=
  if m == 0 then ⟨0, 1, 1⟩
  else
    let (n, d) := scaleTwo m 1 e
    shortestFrom f m e (decimalPoint n d) 17 1

/-- A natural in decimal with a least number of digits. -/
def padded (width n : Nat) : String :=
  let s := n.repr
  "".pushn '0' (width - s.length) ++ s

/-- Scientific notation: a digit, a point and the rest, and a signed exponent of at least two
digits. -/
def Digits.scientific (d : Digits) : String :=
  let ds := d.value.repr
  let e := d.point - 1
  let rest := ds.toList.drop 1
  let mantissa := String.ofList (ds.toList.take 1) ++
    (if rest.isEmpty then "" else "." ++ String.ofList rest)
  mantissa ++ "e" ++ (if e < 0 then "-" else "+") ++ padded 2 e.natAbs

def Digits.positional (d : Digits) : String :=
  let ds := d.value.repr
  if d.point ≤ 0 then "0." ++ "".pushn '0' (-d.point).toNat ++ ds
  else
    let p := d.point.toNat
    if d.count ≤ p then ds ++ "".pushn '0' (p - d.count)
    else String.ofList (ds.toList.take p) ++ "." ++ String.ofList (ds.toList.drop p)

/-- Numbers from a ten-thousandth up to a million are written positionally, others
scientifically. -/
def Digits.text (d : Digits) : String :=
  if d.value == 0 then "0"
  else if d.point - 1 < -4 || 6 ≤ d.point - 1 then d.scientific
  else d.positional

/-- The spelling of a number by its parts. -/
def Unpacked.text (f : Format) : Unpacked → String
  | .nan => "NaN"
  | .infinite negative => if negative then "-Inf" else "+Inf"
  | .finite negative m e => (if negative then "-" else "") ++ (shortestDigits f m e).text

def doubleText (x : Float) : String := (unpackDouble x).text .double

def singleText (x : Float32) : String := (unpackSingle x).text .single

end Formulary.Number
