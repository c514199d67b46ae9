import Formulary.Value.Basic

/-!
# Spellings of values

How a value is written outside expressions, in traces and in data, and how a scalar is read back.
-/

namespace Formulary.Value

/-- The spelling of a value without its type: integers and what holds one as a number, dates by the
internet standard, a record by its first telling field. -/
def spelling : Value → Text
  | .int _ n | .enum _ _ n | .char n | .timeSpan n => Text.ofString (toString n)
  | .dateTime t => Text.ofString t.standardText
  | .record _ fields =>
    match fields with
    | .int _ n :: _ => Text.ofString (toString n)
    | .double x :: _ => Text.ofString (Number.doubleText x)
    | .string t :: _ => t
    | _ :: .string t :: _ => t
    | _ => []
  | .pointer _ _ v _ =>
    match v with
    | .record .. | .pointer .. => v.spelling
    | v => v.shown
  | .missing _ => Text.ofString "nil"
  | v => v.shown

def readInt? (s : String) : Option Int :=
  let (negative, digits) := Number.spanSign s.toList
  if digits.isEmpty || !digits.all Char.isDigit then none
  else some (if negative then -(Number.digitsValue digits) else Number.digitsValue digits)

def readDouble? (s : String) : Option Float :=
  match s with
  | "NaN" => some (0.0 / 0.0)
  | "Inf" | "+Inf" => some (1.0 / 0.0)
  | "-Inf" => some (-1.0 / 0.0)
  | s => Number.readDouble? s

def readSingle? (s : String) : Option Float32 :=
  match s with
  | "NaN" => some (0.0 / 0.0)
  | "Inf" | "+Inf" => some (1.0 / 0.0)
  | "-Inf" => some (-1.0 / 0.0)
  | s => Number.readSingle? s

/-- The scalar of a type with a spelling; a decimal is stored under the mark. -/
def ofSpelling? (mark : Mark) (s : String) : Ty → Option Value
  | .int k => (readInt? s).map (.ofInt k)
  | .enum name k => (readInt? s).map fun n => .enum name k (k.wrap n)
  | .char => (readInt? s).map fun n => .char (IntKind.int.wrap n)
  | .timeSpan => (readInt? s).map fun n => .timeSpan (IntKind.long.wrap n)
  | .single => (readSingle? s).map .single
  | .double => (readDouble? s).map .double
  | .decimal => (Decimal.read? s).map (.decimal · mark)
  | .string => some (.ofString s)
  | .dateTime =>
    let layout := Text.ofString "2006-01-02T15:04:05.999999999Z07:00"
    match Calendar.readMoment layout (Text.ofString s) with
    | .ok t => some (.dateTime t)
    | .error _ => none
  | _ => none

end Formulary.Value
