import Formulary.Typing.Operator
import Formulary.Number.Binary

/-!
# Arithmetic of expressions

Addition, subtraction, multiplication, division and remainder over the integers of one width, with
and without a test for overflow, and over the real types; comparisons, shifts and bitwise operators.
Overflow is recognised from the wrapped result alone.
-/

namespace Formulary

/-- The failure of an operator whose exact result does not fit. -/
def overflowOf (op : Operator) : Failure := .within s!"operator {op.symbol}" (.fault .overflow)

/-- Whether a number is the least of a signed type: the only negative one that is its own
negation. -/
def IntKind.isLeast (k : IntKind) (n : Int) : Bool := n < 0 && k.wrap (-n) == n

def signedArithmetic (k : IntKind) (op : Operator) (checked : Bool) (a b : Int) :
    Except Failure Int :=
  match op with
  | .add =>
    let r := k.wrap (a + b)
    if checked && decide (r > a) != decide (b > 0) then .error (overflowOf op) else .ok r
  | .subtract =>
    let r := k.wrap (a - b)
    if checked && decide (r < a) != decide (b > 0) then .error (overflowOf op) else .ok r
  | .multiply =>
    let r := k.wrap (a * b)
    if checked && a != 0 && (k.wrap (r.tdiv a) != b || (a == -1 && k.isLeast b)) then
      .error (overflowOf op)
    else .ok r
  | .divide =>
    if b == 0 then .error (.fault .divideByZero)
    else if checked && b == -1 && k.isLeast a then .error (overflowOf op)
    else .ok (k.wrap (a.tdiv b))
  | _ => if b == 0 then .error (.fault .divideByZero) else .ok (a.tmod b)

def unsignedArithmetic (k : IntKind) (op : Operator) (checked : Bool) (a b : Int) :
    Except Failure Int :=
  match op with
  | .add =>
    let r := k.wrap (a + b)
    if checked && r < a then .error (overflowOf op) else .ok r
  | .subtract => if checked && a < b then .error (overflowOf op) else .ok (k.wrap (a - b))
  | .multiply =>
    let r := k.wrap (a * b)
    if checked && a != 0 && r.tdiv a != b then .error (overflowOf op) else .ok r
  | .divide => if b == 0 then .error (.fault .divideByZero) else .ok (a.tdiv b)
  | _ => if b == 0 then .error (.fault .divideByZero) else .ok (a.tmod b)

def intArithmetic (k : IntKind) (op : Operator) (checked : Bool) (a b : Int) : Except Failure Int :=
  if k.unsigned then unsignedArithmetic k op checked a b else signedArithmetic k op checked a b

def intNegation (k : IntKind) (checked : Bool) (a : Int) : Except Failure Int :=
  if checked && k.isLeast a then .error (overflowOf .negate) else .ok (k.wrap (-a))

/-- Arithmetic over doubles; division by zero gives an infinity or no number. -/
def doubleArithmetic (op : Operator) (a b : Float) : Float :=
  match op with
  | .add => a + b
  | .subtract => a - b
  | .multiply => a * b
  | .divide => a / b
  | _ => Number.floatRemainder a b

def singleArithmetic (op : Operator) (a b : Float32) : Float32 :=
  match op with
  | .add => a + b
  | .subtract => a - b
  | .multiply => a * b
  | .divide => a / b
  | _ => (Number.floatRemainder a.toFloat b.toFloat).toFloat32

/-- A comparison of doubles; what is no number differs from everything. -/
def doubleComparison (op : Operator) (a b : Float) : Bool :=
  match op with
  | .equal => a == b
  | .notEqual => a != b
  | .less => a < b
  | .lessEqual => a ≤ b
  | .greater => b < a
  | _ => b ≤ a

/-- A shift of an integer by a count taken modulo the width. -/
def shifted (k : IntKind) (left : Bool) (a count : Int) : Int :=
  let n := (count.emod k.bits).toNat
  if left then k.wrap (a * Nat.pow 2 n) else a.fdiv (Nat.pow 2 n)

/-- A bitwise operator over the bits of two integers. -/
def bitwise (k : IntKind) (op : Operator) (a b : Int) : Int :=
  let x := BitVec.ofInt k.bits a
  let y := BitVec.ofInt k.bits b
  let r :=
    match op with
    | .and => x &&& y
    | .or => x ||| y
    | _ => x ^^^ y
  if k.unsigned then r.toNat else r.toInt

namespace Typing

/-- The type in which operands of a type are computed with. -/
def widened : Ty → Ty
  | .int .byte | .int .sbyte | .int .short | .int .ushort | .char => .int .int
  | t => t.normal

/-- Whether a type has arithmetic and comparisons of its own. -/
def isComputed : Ty → Bool
  | .int .int | .int .long | .int .uint | .int .ulong | .single | .double => true
  | _ => false

def shiftType? : Ty → Option Ty
  | .int k => some (widened (.int k))
  | .char => some (.int .int)
  | _ => none

def negateType? : Ty → Option Ty
  | .int .byte | .int .sbyte | .int .short | .int .ushort | .int .int | .char => some (.int .int)
  | .int .uint | .int .long | .int .machine => some (.int .long)
  | .single => some .single
  | .double => some .double
  | _ => none

end Typing

end Formulary
