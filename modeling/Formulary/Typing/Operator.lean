import Formulary.Host.Member

/-!
# Operators

The operators that hosts can overload, and registries of overloads and of conversions between types.
-/

namespace Formulary

inductive Operator where
  | add
  | subtract
  | multiply
  | divide
  | modulo
  | power
  | equal
  | notEqual
  | less
  | lessEqual
  | greater
  | greaterEqual
  | and
  | or
  | xor
  | negate
  | not
  deriving DecidableEq, Repr, Inhabited

namespace Operator

/-- The operators with their symbols and the names of their instructions. -/
def table : List (Operator × String × String) :=
  [(add, "+", "add"), (subtract, "-", "sub"), (multiply, "*", "mul"), (divide, "/", "div"),
    (modulo, "%", "rem"), (power, "^", "pow"), (equal, "=", "ceq"), (notEqual, "<>", "cne"),
    (less, "<", "clt"), (lessEqual, "<=", "cle"), (greater, ">", "cgt"),
    (greaterEqual, ">=", "cge"), (and, "and", "and"), (or, "or", "or"), (xor, "xor", "xor"),
    (negate, "-", "neg"), (not, "not", "not")]

def symbol (op : Operator) : String := ((table.find? (·.1 == op)).map (·.2.1)).getD ""

def mnemonic (op : Operator) : String := ((table.find? (·.1 == op)).map (·.2.2)).getD ""

/-- The operator of a symbol; the minus sign means subtraction. -/
def ofSymbol? (s : String) : Option Operator := (table.find? (·.2.1 == s)).map (·.1)

def isUnary (op : Operator) : Bool := op == negate || op == not

def isEquality (op : Operator) : Bool := op == equal || op == notEqual

/-- The outcome of a comparison by the order of its operands. -/
def decides : Operator → Ordering → Bool
  | equal, o => o == .eq
  | notEqual, o => o != .eq
  | less, o => o == .lt
  | lessEqual, o => o != .gt
  | greater, o => o == .gt
  | _, o => o != .lt

end Operator

inductive Registrant where
  | function (f : Function)
  | other (type : String)

/-- The overloads and conversions a host has registered, in order. Of two conversions between the
same types the later one counts. -/
structure Operators where
  binary : List (Operator × Function) := []
  unary : List (Operator × Function) := []
  implicit : List Function := []
  explicit : List Function := []
  deriving Inhabited

namespace Operators

def checkFunction (params : Nat) : Registrant → Except String Function
  | .other t => .error s!"expected a func, got {t}"
  | .function f =>
    let s := f.signature
    if s.variadic || s.params.length != params then
      .error s!"expected {params} parameters, got {s.native}"
    else if s.value?.isNone then
      .error s!"expected one result, optionally followed by error, got {s.native}"
    else .ok f

def addBinary (o : Operators) (op : Operator) (r : Registrant) : Except String Operators :=
  if op.isUnary then .error s!"operator {op.symbol} is unary"
  else
    match checkFunction 2 r with
    | .error e => .error s!"binary operator {op.symbol}: {e}"
    | .ok f => .ok { o with binary := o.binary ++ [(op, f)] }

def addUnary (o : Operators) (op : Operator) (r : Registrant) : Except String Operators :=
  if !op.isUnary then .error s!"operator {op.symbol} is binary"
  else
    match checkFunction 1 r with
    | .error e => .error s!"unary operator {op.symbol}: {e}"
    | .ok f => .ok { o with unary := o.unary ++ [(op, f)] }

/-- Registers a conversion that needs no cast. -/
def addImplicit (o : Operators) (r : Registrant) : Except String Operators :=
  match checkFunction 1 r with
  | .error e => .error s!"implicit conversion: {e}"
  | .ok f => .ok { o with implicit := f :: o.implicit }

def addExplicit (o : Operators) (r : Registrant) : Except String Operators :=
  match checkFunction 1 r with
  | .error e => .error s!"explicit conversion: {e}"
  | .ok f => .ok { o with explicit := f :: o.explicit }

def converts (source target : Ty) (f : Function) : Bool :=
  f.signature.params == [source] && f.signature.results.head? == some target

/-- The conversion between two types that needs no cast. -/
def implicit? (o : Operators) (source target : Ty) : Option Function :=
  o.implicit.find? (converts source target)

/-- The conversion between two types by a cast. -/
def explicit? (o : Operators) (source target : Ty) : Option Function :=
  (o.explicit.find? (converts source target)).or (o.implicit? source target)

/-- The overloads of a binary operator with a parameter of one of two types. -/
def binaryOn (o : Operators) (op : Operator) (t u : Ty) : List Function :=
  (o.binary.filter fun e => e.1 == op && e.2.signature.params.any fun p =>
    p == t || p == u).map (·.2)

def unaryOn (o : Operators) (op : Operator) (t : Ty) : List Function :=
  (o.unary.filter fun e => e.1 == op && e.2.signature.params.head? == some t).map (·.2)

end Operators

end Formulary
