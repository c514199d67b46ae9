import Formulary.Value.Basic

/-!
# Numeric values

The readings of a numeric value as an integer of 64 bits, a double or a decimal, and conversions
between the numeric types.
-/

namespace Formulary.Value

/-- The integer part of a double within 64 bits. What lies outside has no agreed meaning and gives
the least number. -/
def truncated (x : Float) : Int :=
  match Number.wholePart? x with
  | some n => if IntKind.long.holds n then n else IntKind.long.low
  | none => IntKind.long.low

/-- The integer part of a double within 64 unsigned bits. -/
def truncatedUnsigned (x : Float) : Int :=
  match Number.wholePart? x with
  | some n => if IntKind.ulong.holds n then n else IntKind.ulong.wrap (truncated x)
  | none => Nat.pow 2 63

/-- A numeric value as a signed integer of 64 bits; unsigned ones keep their bits. -/
def toLong : Value → Int
  | .int _ n | .char n => IntKind.long.wrap n
  | .single x => truncated x.toFloat
  | .double x => truncated x
  | .decimal d _ => IntKind.long.wrap d.wholePart
  | _ => 0

/-- A numeric value as an unsigned integer of 64 bits; signed ones keep their bits. -/
def toULong : Value → Int
  | .single x => truncatedUnsigned x.toFloat
  | .double x => truncatedUnsigned x
  | .decimal d _ => IntKind.ulong.wrap d.wholePart
  | v => IntKind.ulong.wrap v.toLong

def toDouble : Value → Float
  | .int _ n | .char n => Number.doubleOfInt n
  | .single x => x.toFloat
  | .double x => x
  | .decimal d _ => d.toDouble
  | _ => 0

def toDecimal : Value → Value
  | .decimal d m => .decimal d m
  | .int _ n | .char n => ofDecimal (Decimal.ofInt n)
  | .single x => ofDecimal ((Decimal.ofUnpacked? .single (Number.unpackSingle x)).getD ⟨0, 0⟩)
  | .double x => ofDecimal ((Decimal.ofUnpacked? .double (Number.unpackDouble x)).getD ⟨0, 0⟩)
  | _ => ofDecimal ⟨0, 0⟩

/-- A numeric value in another numeric type, modulo the width of an integer type. -/
def toNumeric (target : Ty) (v : Value) : Value :=
  match target with
  | .int k => if k == .ulong || k == .umachine then .int k v.toULong else .ofInt k v.toLong
  | .char => .char (IntKind.int.wrap v.toLong)
  | .single => .single v.toDouble.toFloat32
  | .double => .double v.toDouble
  | .decimal => v.toDecimal
  | _ => v

def integerPart? : Value → Option Int
  | .single x => Number.wholePart? x.toFloat
  | .double x => Number.wholePart? x
  | .decimal d _ => some d.wholePart
  | .int _ n | .char n => some n
  | _ => some 0

/-- A value with an integer inside: a number, a character, an enumeration or a time span. -/
def inner? : Value → Option Int
  | .int _ n | .enum _ _ n | .char n | .timeSpan n => some n
  | _ => none

/-- The value of an integer in a type that has an integer inside. -/
def ofInner? (n : Int) : Ty → Option Value
  | .int k => some (.ofInt k n)
  | .enum name k => some (.enum name k (k.wrap n))
  | .char => some (.char (IntKind.int.wrap n))
  | .timeSpan => some (.timeSpan (IntKind.long.wrap n))
  | .single => some (.single (Number.doubleOfInt n).toFloat32)
  | .double => some (.double (Number.doubleOfInt n))
  | .string => some (.string (Text.encodeInt n))
  | _ => none

/-- A value converted to the type a function of the host expects, where the host converts on its
own. -/
def adapted (target : Ty) (v : Value) : Value :=
  if v.type? == some target then v
  else
    match v.inner? with
    | some n => (ofInner? n target).getD v
    | none =>
      match v with
      | .single _ | .double _ =>
        match target with
        | .single | .double | .int _ => v.toNumeric target
        | .string => v
        | t => (ofInner? v.toLong t).getD v
      | _ => if v.type?.map Ty.underlying == some target.underlying then
          v.relabel target.label? else v

end Formulary.Value
