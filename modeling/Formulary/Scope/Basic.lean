import Formulary.Scope.Imports
import Formulary.Scope.Store
import Formulary.Element.Basic
import Formulary.Host.Member
import Formulary.Lexical.Options
import Formulary.Machine.Program

/-!
# Options and scopes

How expressions are compiled: the case rule of names, the types of literals, overflow tests, the
comparison of strings, access to the owner, the type of the result and the limits; and what the
names and operators of a text mean while it is compiled.
-/

namespace Formulary

/-- The options of a compilation. `shared` expressions keep the context they come from instead of a
snapshot of it; `lexical` options count from the next time the lexer is built. -/
structure Options where
  caseSensitive : Bool := false
  integersAsDoubles : Bool := false
  realLiteral : Ty := .double
  checked : Bool := false
  ignoreCase : Bool := false
  ownerAccess : Access := .open
  resultType : Option Ty := none
  shared : Bool := false
  maxInstructions : Int := Machine.defaultLimit
  lexical : Lexical.Options := {}

/-- The options with another type for real literals; only the three types of real numbers are
taken. -/
def Options.withRealLiteral (o : Options) (t : Ty) : Options :=
  if t == .double || t == .single || t == .decimal then { o with realLiteral := t } else o

structure Scope where
  host : Host
  options : Options
  operators : Operators
  imports : List Member
  store : Store
  ownerType : Option Ty

def refused (reason : Reason) (detail : String) : Except Failure α :=
  .error (.compile { reason, detail })

def refusedAt (reason : Reason) (detail token : String) : Except Failure α :=
  .error (.compile { reason, detail, token })

def mismatch (detail : String) : Except Failure α := refused .typeMismatch detail

def Failure.placed (position : Nat) : Failure → Failure
  | .compile e => .compile (e.placed position)
  | f => f

def placedAt (position : Nat) (r : Except Failure α) : Except Failure α :=
  r.mapError (Failure.placed position)

namespace Scope

def ownerMembers (s : Scope) (name : String) (kinds : List MemberKind) : List Member :=
  match s.ownerType with
  | some t => s.host.findMembers t name s.options.caseSensitive kinds
  | none => []

/-- The names of the owner's accessible members, each once. -/
def ownerNames (host : Host) (type : Option Ty) (access : Access) : List String :=
  match type with
  | some t => (((host.members t).filter (·.isAccessible access)).map Member.name).eraseDups
  | none => []

def knownNames (s : Scope) : List String :=
  ownerNames s.host s.ownerType s.options.ownerAccess ++ Imports.names s.imports ++ s.store.names

def memberNames (s : Scope) (t : Ty) : List String :=
  ((s.host.members t).map Member.name ++ s.host.otherNames t).mergeSort fun a b => a ≤ b

def imported (s : Scope) (name : String) : List Member :=
  Imports.lookup s.imports name s.options.caseSensitive

/-- How well one type converts to another. -/
def score (s : Scope) (source target : Ty) : Int := Typing.score s.host s.operators source target

def converts (s : Scope) (source target : Ty) : Bool :=
  (Typing.implicit? s.host s.operators source target).isSome

/-- An element converted to a type without a cast. -/
def implicit (s : Scope) (e : Element) (t : Ty) : Except Failure Element :=
  if e.type == t then .ok e
  else
    match Typing.implicit? s.host s.operators e.type t with
    | some how => .ok (.convert "conv" how t e)
    | none => mismatch s!"cannot convert {e.type.name} to {t.name}"

end Scope

end Formulary
