import Formulary.Host.Standard
import Formulary.Scope.Imports

/-!
# Libraries

A library is a named set of functions and constants that can be imported under its own namespace or
any other.
-/

namespace Formulary

structure Library where
  name : String
  functions : List (String × Function)
  constants : List (String × Value) := []

namespace Library

def names (l : Library) : List String := (l.functions.map (·.1)).eraseDups

/-- The functions and constants as members to import. -/
def additions (l : Library) : List (Except String Member) :=
  let all := l.functions.map (fun f => Imports.function f.1 (.function f.2)) ++
    l.constants.map (fun c => Imports.constant c.1 c.2)
  all.map (·.mapError fun e => s!"library {l.name}: {e}")

def total (params : List Ty) (result : Ty) (f : List Value → Value) : Function :=
  ⟨⟨params, false, [result]⟩, fun args => pure (f args)⟩

/-- A function of any number of trailing arguments that cannot fail. -/
def variadic (params : List Ty) (result : Ty) (f : List Value → Value) : Function :=
  ⟨⟨params, true, [result]⟩, fun args => pure (f args)⟩

def fallible (params : List Ty) (result : Ty) (f : List Value → Except Failure Value) : Function :=
  ⟨⟨params, false, [result, .error]⟩, fun args =>
    match f args with
    | .ok v => pure v
    | .error e => failed e⟩

/-- A function of any number of trailing arguments that can fail. -/
def fallibleVariadic (params : List Ty) (result : Ty)
    (f : List Value → Except Failure Value) : Function :=
  { fallible params result f with signature := ⟨params, true, [result, .error]⟩ }

def arg (args : List Value) (i : Nat) : Value := args.getD i .nil

def textArg (args : List Value) (i : Nat) : Text :=
  match arg args i with
  | .string t => t
  | _ => []

def intArg (args : List Value) (i : Nat) : Int := (arg args i).inner?.getD 0

def doubleArg (args : List Value) (i : Nat) : Float := (arg args i).toDouble

def decimalArg (args : List Value) (i : Nat) : Decimal := Standard.decimalOf (arg args i)

def momentArg (args : List Value) (i : Nat) : Calendar.Moment := Standard.momentOf (arg args i)

def itemsArg (args : List Value) (i : Nat) : List Value :=
  match arg args i with
  | .slice _ _ items _ => items
  | _ => []

def int (n : Int) : Value := .ofInt .int n

def long (n : Int) : Value := .ofInt .long n

end Library

end Formulary
