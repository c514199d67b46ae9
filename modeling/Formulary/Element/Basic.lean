import Formulary.Element.Operation
import Formulary.Lexical.Token

/-!
# Elements

The typed tree of an expression: every name is resolved, every operator is a definite operation and
every conversion is written out.
-/

namespace Formulary

inductive Logic where
  | and
  | or
  deriving DecidableEq, Repr, Inhabited

structure NumeralImage where
  kind : Lexical.Kind
  image : Text
  deriving DecidableEq, Repr

mutual

inductive Element where
  | constant (type : Ty) (value : Value) (numeral : Option NumeralImage)
  | convert (name : String) (how : Option Conversion) (type : Ty) (inner : Element)
  | unary (op : Unary) (type : Ty) (operand : Element)
  | binary (op : Binary) (type : Ty) (left right : Element)
  | choose (type : Ty) (condition whenTrue whenFalse : Element)
  | logic (condition : Condition)
  | duplicate (type : Ty)
  | among (operand : Element) (tests : List Element)
  | contains (collection operand : Element)
  | owner (type : Ty)
  | read (member : Member) (type : Ty) (receiver : Element)
  | call (name : String) (fn : Function) (spread : Bool) (type : Ty) (args : List Element)
  | invoke (name : String) (signature : Signature) (spread : Bool) (type : Ty) (receiver : Element)
    (args : List Element)
  | variable (name : String) (type : Ty)
  | demand (name : String) (type : Ty) (args : List Element)
  | index (type : Ty) (receiver position : Element)

inductive Condition where
  | operand (e : Element)
  | join (op : Logic) (left right : Condition)

end

instance : Inhabited Element := ⟨.constant .null .nil none⟩

namespace Element

def type : Element → Ty
  | .constant t .. | .convert _ _ t _ | .unary _ t _ | .binary _ t _ _ | .choose t ..
  | .duplicate t | .owner t
  | .read _ t _ | .call _ _ _ t _ | .invoke _ _ _ t _ _ | .variable _ t | .demand _ t _
  | .index t _ _ => t
  | .logic _ | .among .. | .contains .. => .bool

/-- An element as a condition; a tree of conditions stays one tree. -/
def condition : Element → Condition
  | .logic c => c
  | e => .operand e

end Element

/-- What an evaluation reads from outside: the declarations of the host, the owner object, variables
and functions supplied on demand. -/
structure Environment where
  host : Host
  owner : Value
  load : String → Ty → Eval Value
  demand : String → Ty → List Value → Eval Value

end Formulary
