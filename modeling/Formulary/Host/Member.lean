import Formulary.Value.Equal
import Formulary.Value.Number

/-!
# Members

What a name can mean on a value or in a namespace: fields, properties and methods of types;
functions, constants, types and nested namespaces of the imports. A property is a method without
parameters, read like a field.
-/

namespace Formulary

inductive MemberKind where
  | field
  | property
  | method
  | function
  | constant
  | type
  | namespace
  deriving DecidableEq, Repr, Inhabited

namespace MemberKind

def table : List (MemberKind × String) :=
  [(field, "field"), (property, "property"), (method, "method"), (function, "function"),
    (constant, "constant"), (type, "type"), (.namespace, "namespace")]

def name (k : MemberKind) : String := ((table.find? (·.1 == k)).map (·.2)).getD ""

def ofName? (s : String) : Option MemberKind := (table.find? (·.2 == s)).map (·.1)

def isValue (k : MemberKind) : Bool := k == field || k == property || k == constant

def isCallable (k : MemberKind) : Bool := k == method || k == function

end MemberKind

inductive Member where
  | field (name : String) (type : Ty) (path : List Nat) (exported : Bool) (tag : Tag)
  | property (name : String) (signature : Signature)
  | method (name : String) (signature : Signature)
  | function (name : String) (fn : Function)
  | constant (name : String) (type : Ty) (value : Value)
  | type (name : String) (type : Ty)
  | namespace (name : String) (members : List Member)

instance : Inhabited Member := ⟨.namespace "" []⟩

structure Access where
  exported : Bool
  hidden : Bool
  deriving DecidableEq, Repr, Inhabited

def Access.open : Access := ⟨true, false⟩

def Access.all : Access := ⟨true, true⟩

namespace Member

def name : Member → String
  | .field name .. | .property name _ | .method name _ | .function name _
  | .constant name .. | .type name _
  | .namespace name _ => name

def kind : Member → MemberKind
  | .field .. => .field
  | .property .. => .property
  | .method .. => .method
  | .function .. => .function
  | .constant .. => .constant
  | .type .. => .type
  | .namespace .. => .namespace

/-- Whether the host shows the member to everyone. -/
def isExported : Member → Bool
  | .field _ _ _ exported _ => exported
  | _ => true

def tag : Member → Tag
  | .field _ _ _ _ tag => tag
  | _ => .none

def signature? : Member → Option Signature
  | .property _ s | .method _ s => some s
  | .function _ f => some f.signature
  | _ => none

/-- Whether a member may be used; a rule of its own counts more than what is generally allowed. -/
def isAccessible (m : Member) (a : Access) : Bool :=
  match m.tag with
  | .allow => true
  | .deny => false
  | .none => if m.isExported then a.exported else a.hidden

/-- The type of the value a member gives: that of the field or constant, the type itself, or the
result of a call. -/
def valueType? : Member → Option Ty
  | .field _ t .. | .constant _ t _ | .type _ t => some t
  | .property _ s | .method _ s => s.value?
  | .function _ f => f.signature.value?
  | .namespace .. => none

def hasResult (m : Member) : Bool :=
  match m.signature? with
  | some s => s.value?.isSome
  | none => m.kind.isValue

/-- The kind, name and type of a member. -/
def text (m : Member) : String :=
  match m with
  | .method name s => s!"{m.kind.name} {name}{s.shape}"
  | .function name f => s!"{m.kind.name} {name}{f.signature.shape}"
  | .namespace name _ => s!"{m.kind.name} {name}"
  | _ => s!"{m.kind.name} {m.name} {Ty.nameOf m.valueType?}"

end Member

/-- The key under which a name is looked up: its case folding, unless case matters. -/
def nameKey (caseSensitive : Bool) (name : String) : Text :=
  if caseSensitive then Text.ofString name else Text.fold (Text.ofString name)

/-- Whether two names are the same under the case rule. -/
def sameName (caseSensitive : Bool) (a b : String) : Bool :=
  a == b || (!caseSensitive && nameKey false a == nameKey false b)

namespace Host

variable (host : Host)

structure Sighting where
  field : Field
  path : List Nat
  hidden : Bool := false

/-- The sightings, newest first, with the latest one of a name hidden. -/
def hide (name : String) : List Sighting → List Sighting
  | [] => []
  | s :: rest =>
    if s.field.name == name then { s with hidden := true } :: rest else s :: hide name rest

/-- The sightings with one more. Of two fields of one name the nearer one counts, of two equally
near ones none. -/
def sight (f : Field) (path : List Nat) (seen : List Sighting) : List Sighting :=
  match seen.find? (·.field.name == f.name) with
  | none => { field := f, path := path } :: seen
  | some old =>
    if path.length == old.path.length then hide f.name seen
    else if path.length < old.path.length then { field := f, path := path } :: hide f.name seen
    else seen

/-- The record whose fields a type has, also through a pointer. -/
def recordName? : Ty → Option String
  | .record n | .pointer (.record n) _ => some n
  | .dateTime | .pointer .dateTime _ => some Ty.dateTime.native
  | .decimal | .pointer .decimal _ => some Ty.decimal.native
  | _ => none

/-- Adds the fields of a record and of the records embedded in it, except of one that is being
visited. -/
def walk : Nat → List String → List Nat → String → List Sighting → List Sighting
  | 0, _, _, _, seen => seen
  | fuel + 1, visiting, path, name, seen =>
    if visiting.contains name then seen
    else
      (host.fields name).zipIdx.foldl
        (fun seen (f, i) =>
          match f.embedded, recordName? f.type with
          | true, some inner =>
            walk fuel (name :: visiting) (path ++ [i]) inner (sight f (path ++ [i]) seen)
          | _, _ => sight f (path ++ [i]) seen)
        seen

/-- The fields of a record and of those embedded in it that no other field hides. -/
def visibleFields (name : String) : List Sighting :=
  ((host.walk host.depth [] [] name []).filter (!·.hidden)).reverse

/-- Whether an embedded field of a type is itself a member: those of records and pointers are. -/
def isShown : Ty → Bool
  | .record _ | .dateTime | .decimal | .null | .pointer .. => true
  | _ => false

def fieldsOf (t : Ty) : List Member :=
  match recordName? t with
  | some name =>
    ((host.visibleFields name).filter fun s =>
      !s.field.embedded || isShown s.field.type).map fun s =>
      .field s.field.name s.field.type s.path s.field.exported s.field.tag
  | none => []

/-- The fields, methods and properties of a type, by name. -/
def members (t : Ty) : List Member :=
  let called := (host.methodSet t).filter (·.2.isImportable)
  let methods := called.flatMap fun (name, s) =>
    if s.params.isEmpty && s.value?.isSome then [.method name s, .property name s]
    else [.method name s]
  (host.fieldsOf t ++ methods).mergeSort fun a b => a.name ≤ b.name

def findMembers (t : Ty) (name : String) (caseSensitive : Bool)
    (kinds : List MemberKind) : List Member :=
  (host.members t).filter fun m =>
    sameName caseSensitive m.name name && (kinds.isEmpty || kinds.contains m.kind)

def unreadable (name : String) : Failure := .within s!"read field {name}" (.fault .nilReference)

/-- The field at the end of a path, also through pointers. -/
def follow (name : String) : List Nat → Value → Eval Value
  | [], v => pure v
  | i :: rest, v =>
    match v with
    | .record _ fields | .pointer _ _ (.record _ fields) _ =>
      match fields[i]? with
      | some f => follow name rest f
      | none => breakdown
    | .missing (.pointer ..) => failed (unreadable name)
    | _ => breakdown

def readField (name : String) (path : List Nat) (v : Value) : Eval Value :=
  if v.isNil then failed (unreadable name) else follow name path v

/-- The arguments as a function with a signature receives them: trailing arguments of a variadic
function become one slice, unless they already are one. -/
def arrange (s : Signature) (spread : Bool) (args : List Value) : Eval (List Value) := do
  let adapt (entry : Value × Nat) : Option Value :=
    (s.paramType? entry.2).map fun t =>
      if entry.1.type?.isNone then host.zero t
      else if t.isInterface then entry.1
      else entry.1.adapted t
  match args.zipIdx.mapM adapt with
  | none => breakdown
  | some args =>
    if s.variadic && spread then
      let fixed := s.params.length - 1
      match s.params.getLast? with
      | some (.slice t) =>
        let rest := args.drop fixed
        if args.length < fixed || !rest.all (host.accepts t) ||
            !((args.take fixed).zip s.params).all fun (a, p) => host.accepts p a then breakdown
        else pure (args.take fixed ++ [Value.ofItems t rest])
      | _ => breakdown
    else if args.length == s.params.length && (args.zip s.params).all fun (a, p) =>
      host.accepts p a then pure args
    else breakdown

def callFunction (f : Function) (args : List Value) (spread : Bool) : Eval Value := do
  f.body (← host.arrange f.signature spread args)

def callMethod (name : String) (s : Signature) (recv : Value) (args : List Value)
    (spread : Bool) : Eval Value :=
  match recv with
  | .nil | .missing (.pointer ..) => failed (.within s!"call {name}" (.fault .nilReference))
  | _ =>
    let base :=
      match recv with
      | .pointer t _ _ _ => t
      | v => v.type?.getD .null
    match (host.methodSet (recv.type?.getD .null)).find? (·.1 == name),
        (host.methods base).find? (·.name == name) with
    | some _, some m => do m.body recv (← host.arrange s spread args)
    | _, _ => failed (.plain s!"call {name}: no such method on {(recv.type?.getD .null).native}")

def readMember (m : Member) (recv : Value) : Eval Value :=
  match m with
  | .constant _ _ v => pure v
  | .field name _ path .. => readField name path recv
  | .property name s => host.callMethod name s recv [] true
  | m => failed (.plain s!"{m.kind.name} {m.name} has no value")

/-- Calls a member. `spread` says that trailing arguments come one by one. -/
def callMember (m : Member) (recv : Value) (args : List Value) (spread : Bool) : Eval Value :=
  match m with
  | .function _ f => host.callFunction f args spread
  | .method name s | .property name s => host.callMethod name s recv args spread
  | m => failed (.plain s!"{m.kind.name} {m.name} is not callable")

end Host

end Formulary
