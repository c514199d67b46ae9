import Formulary.Value.Basic
import Formulary.Failure

/-!
# Hosts

A host supplies what the language itself does not define: records, enumerations and interfaces, the
methods of types, and functions. Evaluation may fail, and keeps a tally of the calls that host
functions count.
-/

namespace Formulary

/-- How often each counted function was called. -/
abbrev Tally := List (String × Nat)

def Tally.count (t : Tally) (name : String) : Nat := ((t.find? (·.1 == name)).map (·.2)).getD 0

def Tally.bump : Tally → String → Tally
  | [], name => [(name, 1)]
  | (n, c) :: rest, name => if n == name then (n, c + 1) :: rest else (n, c) :: Tally.bump rest name

/-- An evaluation: a result or a failure, and the tally in either case. -/
abbrev Eval := ExceptT Failure (StateM Tally)

def failed (f : Failure) : Eval α := throw f

def breakdown : Eval α := throw (.broken none)

structure Function where
  signature : Signature
  body : List Value → Eval Value

inductive Tag where
  | none
  | allow
  | deny
  deriving DecidableEq, Repr, Inhabited

structure Field where
  name : String
  type : Ty
  exported : Bool := true
  tag : Tag := .none
  embedded : Bool := false

/-- A method of a type. One that needs a pointer is missing from the bare type. The body receives
the value the method is called on and the arguments. -/
structure Method where
  name : String
  signature : Signature
  needsPointer : Bool := false
  body : Value → List Value → Eval Value

structure Host where
  records : List (String × List Field)
  interfaces : List (String × List (String × Signature))
  methods : Ty → List Method
  otherNames : Ty → List String

namespace Host

variable (host : Host)

def fields (name : String) : List Field := ((host.records.find? (·.1 == name)).map (·.2)).getD []

def zeroOf (zeroRecord : String → Value) : Ty → Value
  | .bool => .bool false
  | .int k => .int k 0
  | .char => .char 0
  | .single => .single 0
  | .double => .double 0
  | .decimal => .decimal ⟨0, 0⟩ .none
  | .string => .string []
  | .dateTime => .dateTime Calendar.Moment.zero
  | .timeSpan => .timeSpan 0
  | .null => .null
  | .object | .face _ => .nil
  | .enum name k => .enum name k 0
  | .record name => zeroRecord name
  | .pointer t label => .missing (.pointer t label)
  | .slice t label => .missing (.slice t label)
  | .map k t label => .missing (.map k t label)
  | .array n t label => .array t (List.replicate n (zeroOf zeroRecord t)) label

def zeroRecord : Nat → String → Value
  | 0, name => .record name []
  | fuel + 1, name => .record name ((host.fields name).map fun f => zeroOf (zeroRecord fuel) f.type)

/-- A bound on how deeply records nest: none holds itself. -/
def depth : Nat := host.records.length + 1

def zero (t : Ty) : Value := zeroOf (host.zeroRecord host.depth) t

def comparableOf (comparableRecord : String → Bool) : Ty → Bool
  | .slice .. | .map .. => false
  | .array _ t _ => comparableOf comparableRecord t
  | .record name => comparableRecord name
  | _ => true

def comparableRecord : Nat → String → Bool
  | 0, _ => true
  | fuel + 1, name => (host.fields name).all fun f => comparableOf (comparableRecord fuel) f.type

def isComparable (t : Ty) : Bool := comparableOf (host.comparableRecord host.depth) t

/-- The methods a type offers: a pointer also those of what it points to, unless it has a label.
Other types without a name of their own have no methods. -/
def methodSet : Ty → List (String × Signature)
  | .object | .pointer _ (some _) | .slice _ none | .array _ _ none | .map _ _ none => []
  | .face name => ((host.interfaces.find? (·.1 == name)).map (·.2)).getD []
  | .pointer t none =>
    match t with
    | .pointer .. | .object | .face _ => []
    | t => (host.methods t).map fun m => (m.name, m.signature)
  | t => ((host.methods t).filter fun m => !m.needsPointer).map fun m => (m.name, m.signature)

/-- Whether a type offers every method of an interface. -/
def implements (t face : Ty) : Bool :=
  face.isInterface && (host.methodSet face).all fun m => (host.methodSet t).contains m

/-- Whether a value of one type is one of another as it is: of the same type, or of an interface
that it implements. -/
def suits (source target : Ty) : Bool := source == target || host.implements source target

/-- Whether a value of one type can be stored where another is declared: as it is, or under the
label of the other type if both are made of the same and one of them has no label. -/
def isAssignable (source target : Ty) : Bool :=
  host.suits source target ||
    (source.underlying == target.underlying && (source.isUnlabelled || target.isUnlabelled))

def accepts (target : Ty) (v : Value) : Bool :=
  match v.type? with
  | some t => host.suits t target
  | none => target.isInterface

end Host

def Value.content : Value → Value
  | .pointer _ _ v _ => v
  | v => v

end Formulary
