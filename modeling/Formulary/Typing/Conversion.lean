import Formulary.Typing.Operator

/-!
# Conversions

Which types convert to which with and without a cast, how well each conversion fits, and what it
does to a value. No conversion at all is `none` inside an answer that there is one.
-/

namespace Formulary

inductive Conversion where
  | nullTo (target : Ty)
  | numeric (target : Ty)
  | checked (target : Ty)
  | enum (target : Ty)
  | assert (target : Ty)
  | user (fn : Function)

namespace Typing

/-- The types that convert to an integer, real or decimal type on their own. -/
def widening : Ty → List Ty
  | .int .short => [.int .byte, .int .sbyte]
  | .int .ushort => [.char, .int .byte]
  | .int .int | .int .uint => [.char, .int .byte, .int .sbyte, .int .short, .int .ushort]
  | .int .long =>
    [.int .sbyte, .int .short, .int .int, .char, .int .byte, .int .ushort, .int .uint]
  | .int .ulong => [.char, .int .byte, .int .ushort, .int .uint]
  | .single | .decimal =>
    [.char, .int .byte, .int .sbyte, .int .short, .int .ushort, .int .int, .int .uint,
      .int .long, .int .ulong]
  | .double =>
    [.char, .int .byte, .int .sbyte, .int .short, .int .ushort, .int .int, .int .uint,
      .int .long, .int .ulong, .single]
  | _ => []

def widens (source target : Ty) : Bool :=
  source == target || source.normal == target.normal ||
    (widening target.normal).contains source.normal

/-- The type both operands of an arithmetic operator become: the wider of the two, at least `int`. A
character combines only with `ushort` and types as wide as `int`, a `ulong` only with unsigned
types. -/
def operandType? (a b : Ty) : Option Ty :=
  let a := a.normal
  let b := b.normal
  let has (t : Ty) : Bool := a == t || b == t
  let other (t : Ty) : Ty := if a == t then b else a
  if !a.isNumeric || !b.isNumeric then none
  else if a == b then
    if [.int .int, .int .uint, .int .long, .int .ulong, .single, .double].contains a then some a
    else some (.int .int)
  else if has .double then some .double
  else if has .single then some .single
  else if has (.int .ulong) then
    if [.int .byte, .int .ushort, .char, .int .uint].contains (other (.int .ulong)) then
      some (.int .ulong)
    else none
  else if has (.int .long) then some (.int .long)
  else if has (.int .uint) then
    if [.int .byte, .int .ushort, .char].contains (other (.int .uint)) then some (.int .uint)
    else some (.int .long)
  else if has .char then
    match other .char with
    | .int .ushort => some (.int .ushort)
    | .int .int => some (.int .int)
    | _ => none
  else some (.int .int)

/-- The type both operands of a bitwise operator become. -/
def bitwiseType? (a b : Ty) : Option Ty :=
  if a.isIntegral && b.isIntegral then operandType? a b else none

/-- How well the null literal fits a type that may be missing: the more special the type the
better. -/
def nullScore (target : Ty) : Int :=
  if target == .object then 1000 else if target.isInterface then 900 else 800

/-- How well one type widens to another, by their places on the ladder. -/
def widenScore (source target : Ty) : Int :=
  if source.rank == 0 || target.rank == 0 then -1 else target.rank - source.rank

variable (host : Host) (ops : Operators)

/-- How well one type converts to another without a cast; lower is better, negative is not at
all. -/
def score (source target : Ty) : Int :=
  if source == target then 0
  else if source == .null then if target.isNullable then nullScore target else -1
  else if (ops.implicit? source target).isSome then 1
  else if widens source target then widenScore source target
  else if host.implements source target then 100
  else -1

/-- The conversion from one type to another without a cast. -/
def implicit? (source target : Ty) : Option (Option Conversion) :=
  if source == target then some none
  else if source == .null then if target.isNullable then some (some (.nullTo target)) else none
  else
    match ops.implicit? source target with
    | some f => some (some (.user f))
    | none =>
      if widens source target then some (some (.numeric target))
      else if host.implements source target then some none
      else none

/-- The conversion from one type to another by a cast. -/
def explicit? (source target : Ty) : Option (Option Conversion) :=
  match implicit? host ops source target with
  | some c => some c
  | none =>
    match ops.explicit? source target with
    | some f => some (some (.user f))
    | none =>
      if source.isNumber && target.isNumber then some (some (.numeric target))
      else if (source.isEnum && (target.isNumber || target.isEnum)) ||
        (target.isEnum && source.isNumber) then
        some (some (.enum target))
      else if source.isInterface then some (some (.assert target))
      else none

/-- The conversion by a cast that fails where a number does not fit. There is no test between types
for which the host has registered a cast, even where the types convert without it. -/
def checkedExplicit? (source target : Ty) : Option (Option Conversion) :=
  match explicit? host ops source target with
  | some (some (.numeric t)) =>
    if (t.isIntegral || t == .char) && source.isNumber && (ops.explicit? source target).isNone then
      some (some (.checked t))
    else some (some (.numeric t))
  | c => c

end Typing

namespace Host

variable (host : Host)

/-- Calls a function with arguments of its parameter types; a missing argument is the zero value. -/
def invoke (f : Function) (args : List Value) : Eval Value :=
  let given := (args.zip f.signature.params).map fun (a, p) =>
    if a.type?.isNone then host.zero p else a
  if args.length == f.signature.params.length &&
      (given.zip f.signature.params).all fun (a, p) => host.accepts p a then f.body given
  else breakdown

end Host

/-- The least and greatest number a checked cast lets through. -/
def castRange : Ty → Int × Int
  | .int k => (k.low, k.high)
  | _ => (0, 0x10FFFF)

def convertNumeric (target : Ty) (v : Value) : Eval Value :=
  match target, v with
  | .decimal, .double x =>
    if x.isFinite then pure (v.toNumeric target)
    else failed (.broken (some s!"Cannot create a Decimal from {Number.doubleText x}"))
  | .decimal, .single x =>
    if x.isFinite then pure (v.toNumeric target)
    else failed (.broken (some s!"Cannot create a Decimal from {Number.singleText x}"))
  | _, _ => pure (v.toNumeric target)

def Conversion.apply (host : Host) (v : Value) : Conversion → Eval Value
  | .nullTo t => pure (host.zero t)
  | .numeric t => convertNumeric t v
  | .checked t =>
    let (low, high) := castRange t
    match v.integerPart? with
    | some n =>
      if n < low || high < n then failed (.within s!"cast to {t.name}" (.fault .overflow))
      else convertNumeric t v
    | none => failed (.within s!"cast to {t.name}" (.fault .overflow))
  | .enum t =>
    match v with
    | .nil => failed (.fault .nilReference)
    | v =>
      let raw := match v with
        | .enum _ k n => .ofInt (if k.unsigned then .ulong else .long) n
        | v => v
      match t with
      | .enum name k => pure (.enum name k (k.wrap (raw.toLong)))
      | t => convertNumeric t raw
  | .assert t =>
    match v.type? with
    | none =>
      if t.isNullable then pure (host.zero t)
      else failed (.within s!"cannot cast null to {t.name}" (.fault .nilReference))
    | some vt =>
      if host.suits vt t then pure v else failed (.plain s!"cannot cast {vt.name} to {t.name}")
  | .user f => host.invoke f [v]

end Formulary
