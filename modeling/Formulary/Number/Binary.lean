/-!
# Binary floating-point formats

The two binary formats of the language, read as exact numbers `± m · 2 ^ e`, and the nearest number
of a format to a rational, ties to the even mantissa. All arithmetic is on naturals and integers.
-/

namespace Formulary.Number

structure Format where
  mantissaBits : Nat
  exponentBits : Nat
  deriving DecidableEq, Repr

def Format.single : Format := ⟨24, 8⟩

def Format.double : Format := ⟨53, 11⟩

/-- The exponent of the smallest positive number of a format. -/
def Format.minExponent (f : Format) : Int :=
  3 - (Nat.pow 2 (f.exponentBits - 1) : Int) - f.mantissaBits

def Format.infinityBits (f : Format) : Nat :=
  (Nat.pow 2 f.exponentBits - 1) * Nat.pow 2 (f.mantissaBits - 1)

def Format.signBit (f : Format) : Nat := Nat.pow 2 (f.mantissaBits - 1 + f.exponentBits)

inductive Unpacked where
  | nan
  | infinite (negative : Bool)
  | finite (negative : Bool) (mantissa : Nat) (exponent : Int)
  deriving DecidableEq, Repr

def unpack (f : Format) (bits : Nat) : Unpacked :=
  let negative := f.signBit ≤ bits
  let magnitude := bits % f.signBit
  let field := magnitude / Nat.pow 2 (f.mantissaBits - 1)
  let fraction := magnitude % Nat.pow 2 (f.mantissaBits - 1)
  if magnitude == f.infinityBits then .infinite negative
  else if f.infinityBits < magnitude then .nan
  else if field == 0 then .finite negative fraction f.minExponent
  else .finite negative (fraction + Nat.pow 2 (f.mantissaBits - 1)) (f.minExponent + field - 1)

/-- The quotient rounded to the nearest natural, a tie to the even one. -/
def roundHalfEven (num den : Nat) : Nat :=
  let q := num / den
  let r := num % den
  if 2 * r < den then q
  else if den < 2 * r then q + 1
  else if q % 2 == 0 then q else q + 1

/-- A number times a power of two, as a fraction. -/
def scaleTwo (num den : Nat) (e : Int) : Nat × Nat :=
  if 0 ≤ e then (num * Nat.pow 2 e.toNat, den) else (num, den * Nat.pow 2 (-e).toNat)

/-- A number times a power of ten, as a fraction. -/
def scaleTen (num den : Nat) (e : Int) : Nat × Nat :=
  if 0 ≤ e then (num * Nat.pow 10 e.toNat, den) else (num, den * Nat.pow 10 (-e).toNat)

/-- The bits of the number nearest to a positive fraction; one that is too large becomes
infinity. -/
def nearestBits (f : Format) (num den : Nat) : Nat :=
  if num == 0 then 0
  else
    let p := f.mantissaBits
    let e := (num.log2 : Int) - den.log2 - (p - 1)
    let (n, d) := scaleTwo num den (-e)
    let e := if n < Nat.pow 2 (p - 1) * d then e - 1 else e
    let e := max e f.minExponent
    let (n, d) := scaleTwo num den (-e)
    let m := roundHalfEven n d
    let field := (e - f.minExponent).toNat
    min (field * Nat.pow 2 (p - 1) + m) f.infinityBits

def doubleOfBits (negative : Bool) (bits : Nat) : Float :=
  Float.ofBits (UInt64.ofNat (bits + if negative then Format.double.signBit else 0))

def singleOfBits (negative : Bool) (bits : Nat) : Float32 :=
  Float32.ofBits (UInt32.ofNat (bits + if negative then Format.single.signBit else 0))

def unpackDouble (x : Float) : Unpacked := unpack .double x.toBits.toNat

def unpackSingle (x : Float32) : Unpacked := unpack .single x.toBits.toNat

def doubleOfFraction (negative : Bool) (num den : Nat) : Float :=
  doubleOfBits negative (nearestBits .double num den)

def doubleOfInt (n : Int) : Float := doubleOfFraction (n < 0) n.natAbs 1

/-- The whole part of a double, toward zero; none for what is not finite. -/
def wholePart? (x : Float) : Option Int :=
  match unpackDouble x with
  | .finite negative m e =>
    let whole := if 0 ≤ e then m * Nat.pow 2 e.toNat else m / Nat.pow 2 (-e).toNat
    some (if negative then -whole else whole)
  | _ => none

/-- The remainder of a division toward zero, exactly; it has the sign of the first number. -/
def floatRemainder (x y : Float) : Float :=
  match unpackDouble x, unpackDouble y with
  | .nan, _ | _, .nan | .infinite _, _ => Float.ofBits 0x7FF8000000000001
  | .finite _ _ _, .infinite _ => x
  | .finite nx mx ex, .finite _ my ey =>
    if my == 0 then Float.ofBits 0x7FF8000000000001
    else
      let low := min ex ey
      let a := mx * Nat.pow 2 (ex - low).toNat
      let b := my * Nat.pow 2 (ey - low).toNat
      let (n, d) := scaleTwo (a % b) 1 low
      doubleOfFraction nx n d

/-- A double rounded to a whole number, ties to the even one. -/
def floatRoundEven (x : Float) : Float :=
  match unpackDouble x with
  | .finite negative m e =>
    if 0 ≤ e then x else doubleOfFraction negative (roundHalfEven m (Nat.pow 2 (-e).toNat)) 1
  | _ => x

def floatTruncate (x : Float) : Float :=
  match unpackDouble x with
  | .finite negative m e =>
    if 0 ≤ e then x else doubleOfFraction negative (m / Nat.pow 2 (-e).toNat) 1
  | _ => x

/-- One number to the power of another: by repeated squaring of mantissa and exponent for the whole
part of the power, and through the logarithm for its fraction. -/
def floatPower (x y : Float) : Float :=
  let nan := Float.ofBits 0x7FF8000000000001
  let inf := Float.ofBits 0x7FF0000000000000
  let isNegativeZero := x.toBits == 0x8000000000000000
  let isOddWhole (v : Float) : Bool :=
    match wholePart? v with
    | some n => floatTruncate v == v && n % 2 != 0
    | none => false
  if y == 0 || x == 1 then 1
  else if y == 1 then x
  else if x.isNaN || y.isNaN then nan
  else if x == 0 then
    if y < 0 then
      if isNegativeZero && isOddWhole y then -inf else inf
    else if isNegativeZero && isOddWhole y then x else 0
  else if y.isInf then
    if x == -1 then 1
    else if (x.abs < 1) == (y > 0) then 0
    else inf
  else if x.isInf then
    if x < 0 then
      if y < 0 then (if isOddWhole y then Float.ofBits 0x8000000000000000 else 0)
      else (if isOddWhole y then -inf else inf)
    else if y < 0 then 0 else inf
  else if y == 0.5 then x.sqrt
  else if y == -0.5 then 1 / x.sqrt
  else
    let whole := floatTruncate y.abs
    let part := y.abs - whole
    if part != 0 && x < 0 then nan
    else if whole >= 9.223372036854775808e18 then
      if x == -1 then 1
      else if (x.abs < 1) == (y > 0) then 0
      else inf
    else
      let (part, whole) := if part > 0.5 then (part - 1, whole + 1) else (part, whole)
      let start := if part != 0 then (part * x.log).exp else 1
      let (m, e) := x.frExp
      let (a, ae) := squareMultiply 64 ((wholePart? whole).getD 0).toNat m e start 0
      if y < 0 then (1 / a).scaleB (-ae) else a.scaleB ae
where
  /-- Multiplies `a · 2 ^ ae` by `m · 2 ^ e` to the power `n`. -/
  squareMultiply : Nat → Nat → Float → Int → Float → Int → Float × Int
    | 0, _, _, _, a, ae => (a, ae)
    | steps + 1, n, m, e, a, ae =>
      if n == 0 then (a, ae)
      else if e < -4096 || 4096 < e then (a, ae + e)
      else
        let (a, ae) := if n % 2 == 1 then (a * m, ae + e) else (a, ae)
        let m := m * m
        let e := e * 2
        let (m, e) := if m < 0.5 then (m + m, e - 1) else (m, e)
        squareMultiply steps (n / 2) m e a ae

end Formulary.Number
