import Formulary.Host.Member

/-!
# Members of the standard types

The methods of characters, dates, time spans, decimals, days of the week and months, and the names
of further members that are known but not offered.
-/

namespace Formulary.Standard

def weekday : Ty := .enum "time.Weekday" .machine

def month : Ty := .enum "time.Month" .machine

def getter (name : String) (result : Ty) (f : Value → Value) : Method :=
  { name := name, signature := ⟨[], false, [result]⟩, body := fun recv _ => pure (f recv.content) }

def machine (n : Int) : Value := .ofInt .machine n

def speak (v : Value) : Value := .string v.shown

def momentOf : Value → Calendar.Moment
  | .dateTime t => t
  | _ => Calendar.Moment.zero

def spanOf : Value → Int
  | .timeSpan n => n
  | _ => 0

def decimalOf : Value → Decimal
  | .decimal d _ => d
  | _ => ⟨0, 0⟩

def intOf : Value → Int
  | .int _ n => n
  | _ => 0

def onMoment (name : String) (result : Ty) (f : Calendar.Moment → Value) : Method :=
  getter name result fun v => f (momentOf v)

def onSpan (name : String) (result : Ty) (f : Int → Value) : Method :=
  getter name result fun v => f (spanOf v)

def onDecimal (name : String) (result : Ty) (f : Decimal → Value) : Method :=
  getter name result fun v => f (decimalOf v)

/-- A time span in a unit: the whole units and the rest apart. -/
def inUnits (unit : Nat) (n : Int) : Float :=
  Number.doubleOfInt (n.tdiv unit) + Number.doubleOfInt (n.tmod unit) / Number.doubleOfInt unit

def dateMethods : List Method :=
  [onMoment "Year" (.int .machine) fun t => machine t.year,
    onMoment "Month" month fun t => .enum "time.Month" .machine t.month,
    onMoment "Day" (.int .machine) fun t => machine t.day,
    onMoment "Hour" (.int .machine) fun t => machine t.hour,
    onMoment "Minute" (.int .machine) fun t => machine t.minute,
    onMoment "Second" (.int .machine) fun t => machine t.sec,
    onMoment "Nanosecond" (.int .machine) fun t => machine t.nanos,
    onMoment "Weekday" weekday fun t => .enum "time.Weekday" .machine t.weekday,
    onMoment "YearDay" (.int .machine) fun t => machine t.yearDay,
    onMoment "Unix" (.int .long) fun t => .ofInt .long t.seconds,
    onMoment "UnixMilli" (.int .long) fun t => .ofInt .long t.unixMillis,
    onMoment "IsZero" .bool fun t => .bool (t.total == Calendar.Moment.zero.total),
    getter "String" .string speak,
    { name := "AddDate",
      signature := ⟨[.int .machine, .int .machine, .int .machine], false, [.dateTime]⟩,
      body := fun recv args =>
        match args.map intOf with
        | [y, m, d] => pure (.dateTime ((momentOf recv.content).addDate y m d))
        | _ => breakdown },
    { name := "Add", signature := ⟨[.timeSpan], false, [.dateTime]⟩,
      body := fun recv args =>
        match args with
        | [.timeSpan n] => pure (.dateTime ((momentOf recv.content).add n))
        | _ => breakdown }]

def spanMethods : List Method :=
  [onSpan "Hours" .double fun n => .double (inUnits 3600000000000 n),
    onSpan "Minutes" .double fun n => .double (inUnits 60000000000 n),
    onSpan "Seconds" .double fun n => .double (inUnits 1000000000 n),
    onSpan "Milliseconds" (.int .long) fun n => .ofInt .long (n.tdiv 1000000),
    onSpan "Microseconds" (.int .long) fun n => .ofInt .long (n.tdiv 1000),
    onSpan "Nanoseconds" (.int .long) fun n => .ofInt .long n,
    getter "String" .string speak]

def decimalMethods : List Method :=
  [onDecimal "IsZero" .bool fun d => .bool d.isZero,
    onDecimal "IsNegative" .bool fun d => .bool d.isNegative,
    onDecimal "Neg" .decimal fun d => .ofDecimal (-d),
    onDecimal "Abs" .decimal fun d => .ofDecimal d.abs,
    onDecimal "Sign" (.int .machine) fun d => machine d.sign,
    getter "String" .string speak,
    { name := "Round", signature := ⟨[.int .int], false, [.decimal]⟩,
      body := fun recv args =>
        match args with
        | [.int _ n] => pure (.ofDecimal ((decimalOf recv.content).round n))
        | _ => breakdown }]

def methods : Ty → List Method
  | .char => [getter "String" .string speak]
  | .dateTime => dateMethods
  | .timeSpan => spanMethods
  | .decimal => decimalMethods
  | .enum "time.Weekday" _ | .enum "time.Month" _ => [getter "String" .string speak]
  | _ => []

/-- The names of members that exist on a standard type besides its methods here. -/
def otherNames : Ty → List String
  | .dateTime | .pointer .dateTime =>
    ["After", "AppendBinary", "AppendFormat", "AppendText", "Before", "Compare", "Equal",
      "Format", "GoString", "GobEncode", "In", "IsDST", "Local", "Location", "MarshalBinary",
      "MarshalJSON", "MarshalText", "Round", "Sub", "Truncate", "UTC", "UnixMicro", "UnixNano"]
  | .timeSpan | .pointer .timeSpan => ["Abs", "Round", "Truncate"]
  | .decimal | .pointer .decimal =>
    ["Add", "Atan", "BigFloat", "BigInt", "Ceil", "Cmp", "Coefficient", "CoefficientInt64",
      "Compare", "Copy", "Cos", "Div", "DivRound", "Equal", "Equals", "ExpHullAbrham", "ExpTaylor",
      "Exponent", "Floor", "GobEncode", "GreaterThan", "GreaterThanOrEqual", "InexactFloat64",
      "IntPart", "IsInteger", "IsPositive", "LessThan", "LessThanOrEqual", "Ln", "MarshalBinary",
      "MarshalJSON", "MarshalText", "Mod", "Mul", "NumDigits", "Pow", "PowBigInt", "PowInt32",
      "PowWithPrecision", "Rat", "RoundBank", "RoundCash", "RoundCeil", "RoundDown", "RoundFloor",
      "RoundUp", "Shift", "Sin", "StringFixed", "StringFixedBank", "StringFixedCash",
      "StringScaled", "Sub", "Tan", "Truncate", "Value"]
  | _ => []

/-- The hidden fields of the standard types that have any. -/
def records : List (String × List Field) :=
  [(Ty.dateTime.native,
      [{ name := "wall", type := .int .ulong, exported := false },
        { name := "ext", type := .int .long, exported := false },
        { name := "loc", type := .pointer (.record "time.Location"), exported := false }]),
    (Ty.decimal.native,
      [{ name := "value", type := .pointer (.record "big.Int"), exported := false },
        { name := "exp", type := .int .int, exported := false }])]

/-- The interfaces every host knows: values with a text of their own, and errors. -/
def interfaces : List (String × List (String × Signature)) :=
  [("fmt.Stringer", [("String", ⟨[], false, [.string]⟩)]),
    ("error", [("Error", ⟨[], false, [.string]⟩)])]

def host : Host where
  records := records
  interfaces := interfaces
  methods := methods
  otherNames := otherNames

end Formulary.Standard
