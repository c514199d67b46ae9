import Formulary.Number.Binary

/-!
# Decimal numerals

Reading decimal numerals `digits [. digits] [e [+|-] digits]`, with an optional sign in front, as
exact fractions.
-/

namespace Formulary.Number

structure Numeral where
  negative : Bool
  coefficient : Nat
  exponent : Int
  deriving DecidableEq, Repr

def digitValue (c : Char) : Nat := c.toNat - '0'.toNat

def digitsValue (cs : List Char) : Nat := cs.foldl (fun n c => n * 10 + digitValue c) 0

def spanDigits (cs : List Char) : List Char × List Char :=
  (cs.takeWhile Char.isDigit, cs.dropWhile Char.isDigit)

/-- Reads the sign in front of a number. -/
def spanSign : List Char → Bool × List Char
  | '-' :: rest => (true, rest)
  | '+' :: rest => (false, rest)
  | rest => (false, rest)

def readExponent? : List Char → Option Int
  | [] => some 0
  | c :: rest =>
    if c == 'e' || c == 'E' then
      let (negative, digits) := spanSign rest
      if digits.isEmpty || !digits.all Char.isDigit then none
      else some (if negative then -(digitsValue digits : Int) else digitsValue digits)
    else none

def Numeral.read? (cs : List Char) : Option Numeral :=
  let (negative, body) := spanSign cs
  let (whole, rest) := spanDigits body
  let (part, rest) :=
    match rest with
    | '.' :: more => spanDigits more
    | _ => ([], rest)
  if whole.isEmpty && part.isEmpty then none
  else
    (readExponent? rest).map fun e =>
      ⟨negative, digitsValue (whole ++ part), e - part.length⟩

def Numeral.fraction (n : Numeral) : Nat × Nat := scaleTen n.coefficient 1 n.exponent

/-- The bits of the nearest number of a format. -/
def Numeral.bits (f : Format) (n : Numeral) : Nat :=
  let (num, den) := n.fraction
  nearestBits f num den

/-- The nearest double; none when the numeral is too large. -/
def Numeral.double? (n : Numeral) : Option Float :=
  let b := n.bits .double
  if b == Format.double.infinityBits then none else some (doubleOfBits n.negative b)

/-- The nearest single; none when the numeral is too large. -/
def Numeral.single? (n : Numeral) : Option Float32 :=
  let b := n.bits .single
  if b == Format.single.infinityBits then none else some (singleOfBits n.negative b)

/-- Reads a double as it is spelled in data: a numeral, `NaN` or an infinity. -/
def readDouble? (s : String) : Option Float :=
  match s with
  | "NaN" => some (Float.ofBits 0x7FF8000000000001)
  | "Inf" | "+Inf" => some (Float.ofBits 0x7FF0000000000000)
  | "-Inf" => some (Float.ofBits 0xFFF0000000000000)
  | _ => (Numeral.read? s.toList).map fun n => doubleOfBits n.negative (n.bits .double)

def readSingle? (s : String) : Option Float32 :=
  match s with
  | "NaN" => some (Float32.ofBits 0x7FC00000)
  | "Inf" | "+Inf" => some (Float32.ofBits 0x7F800000)
  | "-Inf" => some (Float32.ofBits 0xFF800000)
  | _ => (Numeral.read? s.toList).map fun n => singleOfBits n.negative (n.bits .single)

end Formulary.Number
