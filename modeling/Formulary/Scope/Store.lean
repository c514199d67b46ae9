import Formulary.Host.Member

/-!
# Variables

The store of named values that expressions read. A variable holds a value, or a formula that is
evaluated each time the variable is read. A name that is not defined can be supplied on demand by
hooks.
-/

namespace Formulary

inductive Held where
  | value (v : Value)
  | formula (expression : Nat) (type : Ty)

def Held.type? : Held → Option Ty
  | .value v => v.type?
  | .formula _ t => some t

structure Variable where
  name : String
  type : Ty
  held : Held

/-- Suppliers of what the store does not define: the types of variables and functions when an
expression is compiled, values and calls when it runs. -/
structure Hooks where
  variableType : Option (String → Option Ty) := none
  variableValue : Option (String → Ty → Eval Value) := none
  functionType : Option (String → List Ty → Option Ty) := none
  functionCall : Option (String → List Value → Eval Value) := none

/-- An order in which the entries are gone through; any one will do. -/
structure Ranging where
  order : List (Text × Variable) → List (Text × Variable)
  perm : ∀ entries, (order entries).Perm entries

def Ranging.plain : Ranging := ⟨id, .refl⟩

structure Store where
  caseSensitive : Bool := false
  entries : List (Text × Variable) := []
  hooks : Hooks := {}
  ranging : Ranging := .plain

inductive StoreFault where
  | noType (name : String)
  | emptyName
  | notAssignable (name : String) (source target : Ty)
  | alreadyDefined (name : String)
  | unknownType (name : String)
  deriving DecidableEq, Repr

def StoreFault.message : StoreFault → String
  | .noType name => s!"define {name}: nil type"
  | .emptyName => "define: empty variable name"
  | .notAssignable name s t =>
    s!"variable {name}: value of type {s.name} is not assignable to {t.name}"
  | .alreadyDefined name => s!"define {name}: variable already defined"
  | .unknownType name => s!"set {name}: cannot infer the type of nil"

namespace Store

def key (s : Store) (name : String) : Text := nameKey s.caseSensitive name

def find? (s : Store) (name : String) : Option Variable :=
  let k := s.key name
  (s.entries.find? (·.1 == k)).map (·.2)

def typeOf? (s : Store) (name : String) : Option Ty := (s.find? name).map (·.type)

def contains (s : Store) (name : String) : Bool := (s.find? name).isSome

/-- The entries with a variable put under a key: in the place of the one that is there, or at the
end. -/
def put (k : Text) (v : Variable) : List (Text × Variable) → List (Text × Variable)
  | [] => [(k, v)]
  | (l, w) :: rest => if l == k then (k, v) :: rest else (l, w) :: put k v rest

/-- The fault of something held that does not fit a type. -/
def misfit? (host : Host) (name : String) (t : Ty) (held : Held) : Option StoreFault :=
  match held.type? with
  | none => none
  | some h => if host.isAssignable h t then none else some (.notAssignable name h t)

/-- Defines a variable; without a type it takes that of what it holds. The store comes with the
outcome. -/
def define (s : Store) (host : Host) (name : String) (type : Option Ty) (held : Held) :
    Except StoreFault Unit × Store :=
  match type.or held.type? with
  | none => (.error (.noType name), s)
  | some t =>
    if name.isEmpty then (.error .emptyName, s)
    else
      match misfit? host name t held with
      | some fault => (.error fault, s)
      | none =>
        if s.contains name then (.error (.alreadyDefined name), s)
        else (.ok (), { s with entries := put (s.key name) ⟨name, t, held⟩ s.entries })

/-- Sets a variable, which keeps its type; a new one takes the type of what it holds. -/
def set (s : Store) (host : Host) (name : String) (held : Held) : Except StoreFault Unit × Store :=
  match s.find? name with
  | some v =>
    match misfit? host name v.type held with
    | some fault => (.error fault, s)
    | none => (.ok (), { s with entries := put (s.key name) { v with held := held } s.entries })
  | none =>
    match held.type? with
    | none => (.error (.unknownType name), s)
    | some t => (.ok (), { s with entries := put (s.key name) ⟨name, t, held⟩ s.entries })

def remove (s : Store) (name : String) : Store :=
  let k := s.key name
  { s with entries := s.entries.filter (·.1 != k) }

def clear (s : Store) : Store := { s with entries := [] }

/-- The names of the variables in order. -/
def names (s : Store) : List String := (s.entries.map (·.2.name)).mergeSort fun a b => a ≤ b

/-- Entries under the keys of their names by a case rule; of those that come under one key the last
one stays. -/
def rekeyed (caseSensitive : Bool) (entries : List (Text × Variable)) : List (Text × Variable) :=
  entries.foldl (fun es e => put (nameKey caseSensitive e.2.name) e.2 es) []

def withCaseRule (s : Store) (caseSensitive : Bool) : Store :=
  if s.caseSensitive == caseSensitive then s
  else { s with
    caseSensitive := caseSensitive
    entries := rekeyed caseSensitive (s.ranging.order s.entries) }

def suppliedType? (s : Store) (name : String) : Option Ty := s.hooks.variableType.bind (· name)

/-- The result type of a function supplied on demand. -/
def suppliedFunction? (s : Store) (name : String) (args : List Ty) : Option Ty :=
  s.hooks.functionType.bind (· name args)

/-- A value as an expression that expects a type receives it: no value is the zero value, and one of
a type that is only made of the same is converted. -/
def coerce (host : Host) (name : String) (t : Ty) (v : Value) : Eval Value :=
  match v.type? with
  | none => pure (if t.isInterface then .nil else host.zero t)
  | some vt =>
    if host.suits vt t then pure v
    else if host.isAssignable vt t then pure (v.relabel t.label?)
    else failed (.plain s!"{name}: value of type {vt.name} is not assignable to {t.name}")

def naming (name : String) (e : Eval Value) : Eval Value :=
  tryCatch e fun f => failed (.within s!"variable {name}" f)

/-- Reads a variable for an expression that expects a type. -/
def load (s : Store) (host : Host) (evaluate : Nat → Eval Value) (name : String)
    (t : Ty) : Eval Value :=
  match s.find? name with
  | some v => do
    let value ←
      match v.held with
      | .value value => pure value
      | .formula n _ => naming name (evaluate n)
    coerce host name t value
  | none =>
    match s.hooks.variableValue with
    | some supply => do
      let value ← naming name (supply name t)
      coerce host name t value
    | none => failed (.detailed .undefinedVariable name)

def demand (s : Store) (host : Host) (name : String) (t : Ty) (args : List Value) : Eval Value :=
  match s.hooks.functionCall with
  | some call => do
    let value ← call name args
    coerce host name t value
  | none => failed (.plain s!"function {name}: no invoke hook installed")

end Store

end Formulary
