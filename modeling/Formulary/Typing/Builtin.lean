import Formulary.Host.Standard
import Formulary.Typing.Operator

/-!
# Built-in overloads

The operators of decimals, dates and time spans. Overloads registered by a host are tried before
them.
-/

namespace Formulary.Builtin

open Standard

/-- A function of two arguments that cannot fail. -/
def two (p q result : Ty) (f : Value → Value → Value) : Function :=
  ⟨⟨[p, q], false, [result]⟩, fun args =>
    match args with
    | [a, b] => pure (f a b)
    | _ => breakdown⟩

def decimals (f : Decimal → Decimal → Decimal) : Function :=
  two .decimal .decimal .decimal fun a b => .ofDecimal (f (decimalOf a) (decimalOf b))

/-- A division of decimals, which fails for a zero divisor. -/
def quotient (f : Decimal → Decimal → Decimal) : Function :=
  ⟨⟨[.decimal, .decimal], false, [.decimal, .error]⟩, fun args =>
    match args with
    | [a, b] =>
      if (decimalOf b).isZero then failed (.fault .divideByZero)
      else pure (.ofDecimal (f (decimalOf a) (decimalOf b)))
    | _ => breakdown⟩

/-- A function of two time spans to a time span, modulo 64 bits. -/
def spans (f : Int → Int → Int) : Function :=
  two .timeSpan .timeSpan .timeSpan fun a b =>
    .timeSpan (IntKind.long.wrap (f (spanOf a) (spanOf b)))

/-- A date moved by a time span. -/
def moved (f : Int → Int) : Function :=
  two .dateTime .timeSpan .dateTime fun t d =>
    .dateTime ((momentOf t).add (IntKind.long.wrap (f (spanOf d))))

def comparisons (op : Operator) : List (Operator × Function) :=
  let ordered (t : Ty) (order : Value → Value → Ordering) : Operator × Function :=
    (op, two t t .bool fun a b => .bool (op.decides (order a b)))
  [ordered .decimal fun a b => Decimal.compare (decimalOf a) (decimalOf b),
    ordered .dateTime fun a b => compareOfLessAndEq (momentOf a).total (momentOf b).total,
    ordered .timeSpan fun a b => compareOfLessAndEq (spanOf a) (spanOf b)]

def operators : Operators where
  binary :=
    [(.add, decimals (· + ·)), (.add, moved id), (.add, spans (· + ·)),
      (.subtract, decimals (· - ·)), (.subtract, moved (- ·)),
      (.subtract, two .dateTime .dateTime .timeSpan fun a b =>
        .timeSpan ((momentOf a).sub (momentOf b))),
      (.subtract, spans (· - ·)),
      (.multiply, decimals (· * ·)), (.divide, quotient Decimal.divide),
      (.modulo, quotient Decimal.modulo), (.power, two .decimal (.int .int) .decimal fun a n =>
        .ofDecimal ((decimalOf a).pow (intOf n)))]
    ++ [Operator.equal, .notEqual, .less, .lessEqual, .greater, .greaterEqual].flatMap comparisons
  unary :=
    [(.negate, ⟨⟨[.decimal], false, [.decimal]⟩, fun args =>
        match args with
        | [a] => pure (.ofDecimal (-decimalOf a))
        | _ => breakdown⟩),
      (.negate, ⟨⟨[.timeSpan], false, [.timeSpan]⟩, fun args =>
        match args with
        | [a] => pure (.timeSpan (IntKind.long.wrap (-spanOf a)))
        | _ => breakdown⟩)]

end Formulary.Builtin
