import Formulary.Typing.Operator

/-!
# Imports

The tree of namespaces from which expressions take functions, constants and types by name. The
members of the root are visible without a path. Namespaces are created by their exact name and
looked up under the case rule.
-/

namespace Formulary.Imports

def nameFault? (name : String) : Option String :=
  if name.isEmpty then some "import: empty name"
  else if name.toList.any fun c => [' ', '.', '\t', '\r', '\n'].contains c then
    some s!"import: invalid name {Text.quoteString name}"
  else none

def named (name : String) (m : Except String Member) : Except String Member :=
  match nameFault? name with
  | some fault => .error fault
  | none => m

def function (name : String) (r : Registrant) : Except String Member := named name <|
  match r with
  | .other t => .error s!"import {name}: expected a func, got {t}"
  | .function f =>
    if f.signature.isImportable then .ok (.function name f)
    else .error s!"import {name}: unsupported results in {f.signature.native}"

/-- A constant to import; no value at all is a constant of the null type. -/
def constant (name : String) (v : Value) : Except String Member := named name <|
  .ok (.constant name (v.type?.getD .null) v)

def type (name : String) (t : Option Ty) : Except String Member := named name <|
  match t with
  | some t => .ok (.type name t)
  | none => .error s!"import {name}: nil type"

/-- The members with those of a nested namespace changed; the namespace is created if it is
missing. -/
def within (name : String) (change : List Member → List Member) : List Member → List Member
  | [] => [.namespace name (change [])]
  | m :: rest =>
    match m with
    | .namespace n members =>
      if n == name then .namespace n (change members) :: rest else m :: within name change rest
    | _ => m :: within name change rest

/-- The members with those at the end of a path changed. -/
def withinPath : List String → (List Member → List Member) → List Member → List Member
  | [], change => change
  | name :: path, change => within name (withinPath path change)

/-- The members of the first nested namespace with exactly a name. -/
def nested (name : String) : List Member → List Member
  | [] => []
  | .namespace n members :: rest => if n == name then members else nested name rest
  | _ :: rest => nested name rest

def nestedPath : List String → List Member → List Member
  | [], members => members
  | name :: path, members => nestedPath path (nested name members)

/-- The members up to the first one that cannot be imported, and why it cannot. -/
def accepted : List (Except String Member) → List Member × Option String
  | [] => ([], none)
  | .ok m :: rest => let (ms, fault) := accepted rest; (m :: ms, fault)
  | .error fault :: _ => ([], some fault)

/-- Adds members at the end of a path. The path is created in any case; members after one that
cannot be imported are left out. -/
def add (path : List String) (additions : List (Except String Member)) (root : List Member) :
    List Member × Option String :=
  let (members, fault) := accepted additions
  (withinPath path (· ++ members) root, fault)

def functions (fns : List (String × Registrant)) : List (Except String Member) :=
  (fns.mergeSort fun a b => a.1 ≤ b.1).map fun f => function f.1 f.2

def lookup (members : List Member) (name : String) (caseSensitive : Bool) : List Member :=
  members.filter fun m => sameName caseSensitive m.name name

/-- The functions of the root that can follow a value: those with a parameter. -/
def extensions (root : List Member) (name : String) (caseSensitive : Bool) : List Member :=
  (lookup root name caseSensitive).filter fun m =>
    match m with
    | .function _ f => !f.signature.params.isEmpty
    | _ => false

/-- The type at the end of a path; of several namespaces with a name on the way, the last one
counts. -/
def typeAt (caseSensitive : Bool) : List String → List Member → Option Ty
  | [], _ => none
  | name :: path, members =>
    let found := lookup members name caseSensitive
    let types := found.filterMap fun m => match m with | .type _ t => some t | _ => none
    let scopes := found.filterMap fun m => match m with | .namespace _ ms => some ms | _ => none
    match path, types, scopes.getLast? with
    | [], t :: _, _ => some t
    | _, _, some inner => typeAt caseSensitive path inner
    | _, _, none => none

/-- The type a path names: a built-in one, or one imported. -/
def resolveType (root : List Member) (path : List String) (caseSensitive : Bool) : Option Ty :=
  let builtin :=
    match path with
    | [name] => Ty.builtin? (Text.ofString name)
    | _ => none
  builtin.or (typeAt caseSensitive path root)

def names (root : List Member) : List String := (root.map Member.name).eraseDups

end Formulary.Imports
