import Formulary.Text.Quote

/-!
# Failures

Compile errors carry a reason, a message and the place they point to. Evaluation fails for one of a
few reasons of the language itself, or for a reason of the host.
-/

namespace Formulary

inductive Reason where
  | syntaxError
  | constantOverflow
  | typeMismatch
  | undefinedName
  | noReturnValue
  | invalidCast
  | ambiguousMatch
  | accessDenied
  | invalidFormat
  | tooComplex
  | other (number : Nat)
  deriving DecidableEq, Repr, Inhabited

namespace Reason

/-- The reasons of the language in their order, counted from one. -/
def table : List (Reason × String) :=
  [(syntaxError, "SyntaxError"), (constantOverflow, "ConstantOverflow"),
    (typeMismatch, "TypeMismatch"), (undefinedName, "UndefinedName"),
    (noReturnValue, "FunctionHasNoReturnValue"), (invalidCast, "InvalidExplicitCast"),
    (ambiguousMatch, "AmbiguousMatch"), (accessDenied, "AccessDenied"),
    (invalidFormat, "InvalidFormat"), (tooComplex, "TooComplex")]

def ofNumber (n : Nat) : Reason :=
  if n == 0 then .other 0 else ((table[n - 1]?).map (·.1)).getD (.other n)

def name : Reason → String
  | .other n => s!"Reason({n})"
  | r => ((table.find? (·.1 == r)).map (·.2)).getD ""

end Reason

/-- A compile error. The position is a byte offset, missing until it is known; the token is the text
that is to blame. -/
structure CompileError where
  reason : Reason
  detail : String
  position : Option Nat := none
  token : String := ""
  deriving DecidableEq, Repr, Inhabited

namespace CompileError

def message (e : CompileError) : String :=
  match e.position with
  | some p => s!"{e.reason.name} at position {p}: {e.detail}"
  | none => s!"{e.reason.name}: {e.detail}"

def placed (e : CompileError) (position : Nat) : CompileError :=
  { e with position := e.position.or (some position) }

def blaming (e : CompileError) (token : String) : CompileError := { e with token := token }

end CompileError

inductive Fault where
  | divideByZero
  | overflow
  | nilReference
  | indexOutOfRange
  | keyNotFound
  | undefinedVariable
  | stackImbalance
  deriving DecidableEq, Repr, Inhabited

def Fault.message : Fault → String
  | .divideByZero => "division by zero"
  | .overflow => "arithmetic overflow"
  | .nilReference => "nil reference"
  | .indexOutOfRange => "index out of range"
  | .keyNotFound => "key not found"
  | .undefinedVariable => "undefined variable"
  | .stackImbalance => "vm: program left an unbalanced stack"

/-- A failed operation: a fault, perhaps with a detail; a compile error; a date that cannot be read;
any other message; a host that broke down, with its words if it left any; or one of these within a
context. -/
inductive Failure where
  | fault (f : Fault)
  | detailed (f : Fault) (detail : String)
  | compile (e : CompileError)
  | badDate (message : String)
  | plain (message : String)
  | broken (words : Option String)
  | within (label : String) (inner : Failure)
  deriving DecidableEq, Repr, Inhabited

namespace Failure

def message : Failure → String
  | .fault f => f.message
  | .detailed f detail => s!"{f.message}: {detail}"
  | .compile e => e.message
  | .badDate m => m
  | .plain m => m
  | .broken words => "panic during evaluation: " ++ words.getD ""
  | .within label inner => s!"{label}: {inner.message}"

def core : Failure → Failure
  | .within _ inner => inner.core
  | f => f

end Failure

end Formulary
