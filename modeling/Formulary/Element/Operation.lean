import Formulary.Element.Arithmetic
import Formulary.Typing.Conversion

/-!
# Operations on values

What the operators of an expression do once their operands are values of the expected types. An
operand of another type is a breakdown; the types of expressions see to it that none occurs.
-/

namespace Formulary

inductive Binary where
  | concat
  | arithmetic (op : Operator) (type : Ty) (checked : Bool)
  | power
  | compare (op : Operator) (type : Ty)
  | textEqual (ignoreCase negated : Bool)
  | sameObject (negated : Bool)
  | compareEnum (op : Operator)
  | shift (left : Bool) (type : Ty)
  | bitwise (op : Operator) (type : Ty)
  | exclusive
  | overload (op : Operator) (fn : Function)

inductive Unary where
  | not
  | complement
  | negate (type : Ty) (checked : Bool)
  | overload (op : Operator) (fn : Function)

def settle (k : IntKind) : Except Failure Int → Eval Value
  | .ok n => pure (.int k n)
  | .error f => failed f

namespace Binary

/-- The name of the operation's instruction; comparisons of one kind share it. -/
def name : Binary → String
  | .concat => "concat"
  | .arithmetic op .. | .compare op _ | .compareEnum op | .bitwise op _
  | .overload op _ => op.mnemonic
  | .power => "pow"
  | .textEqual _ negated | .sameObject negated => if negated then "cne" else "ceq"
  | .shift left _ => if left then "shl" else "shr"
  | .exclusive => "xor"

/-- What the operation makes of two values. -/
def apply (host : Host) (a b : Value) : Binary → Eval Value
  | .concat => pure (.string (a.joined ++ b.joined))
  | .arithmetic op type checked =>
    match type, a, b with
    | .int k, .int i x, .int j y =>
      if i == k && j == k then settle k (intArithmetic k op checked x y) else breakdown
    | .double, .double x, .double y => pure (.double (doubleArithmetic op x y))
    | .single, .single x, .single y => pure (.single (singleArithmetic op x y))
    | _, _, _ => breakdown
  | .power =>
    match a, b with
    | .double x, .double y => pure (.double (Number.floatPower x y))
    | _, _ => breakdown
  | .compare op type =>
    match type, a, b with
    | .int k, .int i x, .int j y =>
      if i == k && j == k then pure (.bool (op.decides (compareOfLessAndEq x y))) else breakdown
    | .double, .double x, .double y => pure (.bool (doubleComparison op x y))
    | .single, .single x, .single y => pure (.bool (doubleComparison op x.toFloat y.toFloat))
    | _, _, _ => breakdown
  | .textEqual ignoreCase negated =>
    match a, b with
    | .string x, .string y =>
      let same := if ignoreCase then Text.fold x == Text.fold y else x == y
      pure (.bool (same != negated))
    | _, _ => breakdown
  | .sameObject negated =>
    match host.valuesEqual a b with
    | some same => pure (.bool (same != negated))
    | none => breakdown
  | .compareEnum op =>
    match a, b with
    | .enum _ _ x, .enum _ _ y => pure (.bool (op.decides (compareOfLessAndEq x y)))
    | _, _ => breakdown
  | .shift left type =>
    match type, a, b with
    | .int k, .int i x, .int .int n =>
      if i == k then pure (.int k (shifted k left x n)) else breakdown
    | _, _, _ => breakdown
  | .bitwise op type =>
    match type, a, b with
    | .int k, .int i x, .int j y =>
      if i == k && j == k then pure (.int k (Formulary.bitwise k op x y)) else breakdown
    | _, _, _ => breakdown
  | .exclusive =>
    match a, b with
    | .bool x, .bool y => pure (.bool (x != y))
    | _, _ => breakdown
  | .overload _ fn => host.invoke fn [a, b]

end Binary

namespace Unary

def name : Unary → String
  | .not | .complement => "not"
  | .negate .. => "neg"
  | .overload op _ => op.mnemonic

def apply (host : Host) (a : Value) : Unary → Eval Value
  | .not =>
    match a with
    | .bool x => pure (.bool !x)
    | _ => breakdown
  | .complement =>
    match a with
    | .int k x => pure (.ofInt k (-x - 1))
    | _ => breakdown
  | .negate type checked =>
    match type, a with
    | .int k, .int i x => if i == k then settle k (intNegation k checked x) else breakdown
    | .double, .double x => pure (.double (-x))
    | .single, .single x => pure (.single (-x))
    | _, _ => breakdown
  | .overload _ fn => host.invoke fn [a]

end Unary

/-- The key a value is looked up by in a map: a missing value is the zero of the key type. -/
def Host.keyOf (host : Host) (key : Ty) (v : Value) : Value :=
  if v.type?.isNone then host.zero key else v

/-- The value under a key of a map; a key that cannot be hashed is a breakdown. -/
def Host.entry? (host : Host) (key : Ty) (keys values : List Value) (v : Value) :
    Eval (Option Value) :=
  let k := host.keyOf key v
  if k.isHashable then pure (Value.lookup k keys values) else breakdown

/-- Whether one of the items equals a value. -/
def Host.holds (host : Host) (v : Value) : List Value → Eval Bool
  | [] => pure false
  | item :: rest =>
    match host.valuesEqual item v with
    | some true => pure true
    | some false => host.holds v rest
    | none => breakdown

/-- Whether a collection holds a value; a map is searched by key, a pointer leads to the
collection. -/
def Host.contains (host : Host) (v : Value) : Value → Eval Bool
  | .map key _ _ keys values _ => do pure (← host.entry? key keys values v).isSome
  | .missing (.map key _ _) => do pure (← host.entry? key [] [] v).isSome
  | .slice _ _ items _ | .array _ items _ => host.holds v items
  | .missing (.slice ..) => pure false
  | .pointer _ _ content _ => host.contains v content
  | .nil | .missing _ => failed (.within "in" (.fault .nilReference))
  | _ => breakdown

/-- The failure of a position outside a collection. -/
def outOfRange (n : Int) : Failure := .detailed .indexOutOfRange (toString n)

def itemAt (items : List Value) (n : Int) : Eval Value :=
  if n < 0 then failed (outOfRange n)
  else
    match items[n.toNat]? with
    | some v => pure v
    | none => failed (outOfRange n)

/-- The number an index stands for: an unsigned one of 64 bits keeps its value, others are read as
signed. -/
def indexNumber : Value → Int
  | .int .ulong n => n
  | v => v.toLong

/-- The item of a collection at an index: a character of a text, an item by position, or a value by
key. -/
def Host.item (host : Host) (i : Value) : Value → Eval Value
  | .string t => itemAt (t.codes.map fun c => .char (Int.ofNat c)) i.toLong
  | .map key _ _ keys values _ => do
    match ← host.entry? key keys values i with
    | some v => pure v
    | none => failed (.detailed .keyNotFound i.shown.toString)
  | .slice _ _ items _ | .array _ items _ => itemAt items (indexNumber i)
  | .pointer _ _ (.array _ items _) _ => itemAt items (indexNumber i)
  | .nil | .missing _ => failed (.within "index" (.fault .nilReference))
  | _ => breakdown

end Formulary
